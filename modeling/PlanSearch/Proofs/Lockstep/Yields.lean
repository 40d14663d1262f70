import PlanSearch.Proofs.Lockstep.Ground
import PlanSearch.Proofs.Lockstep.Built

/-!
# What selectors yield

A selector yields only candidates of a kind if none of the states that it can come to yields another
one, in whatever order its functions are called. Nothing else has to be known of the selectors of a
solver to follow one run of it. Built selectors yield moves of their registry.
-/

namespace PlanSearch

open Solver

variable {M S C : Type} {sh : Shape}

namespace Selector

/-- What the selector and the memory can come to from a first memory. -/
inductive Reachable (sel : Selector M S C) (first : M) : sel.State → M → Prop
  | start : Reachable sel first sel.start first
  | handle {st st' : sel.State} {m m' : M} {g g' : Random.Generator} (hook : Hook)
    (set : Setting S) (before : Reachable sel first st m)
    (handled : sel.handle hook set st ⟨g, m⟩ = .ok (st', ⟨g', m'⟩)) : Reachable sel first st' m'
  | restart {st st' : sel.State} {m m' : M} {g g' : Random.Generator} (set : Setting S)
    (before : Reachable sel first st m)
    (restarted : sel.restart set st ⟨g, m⟩ = .ok (st', ⟨g', m'⟩)) : Reachable sel first st' m'
  | next {st st' : sel.State} {m m' : M} {g g' : Random.Generator} {c : Option C}
    (set : Setting S) (before : Reachable sel first st m)
    (drawn : sel.next set st ⟨g, m⟩ = .ok ((c, st'), ⟨g', m'⟩)) : Reachable sel first st' m'

/-- Whatever the selector is asked, it yields only good candidates. -/
def Yields (sel : Selector M S C) (first : M) (good : C → Prop) : Prop :=
  ∀ st m, sel.Reachable first st m → ∀ set g c st' w,
    sel.next set st ⟨g, m⟩ = .ok ((some c, st'), w) → good c

variable {sel : Selector M S C} {first : M} {good : C → Prop}

theorem Yields.mono {good' : C → Prop} (yields : sel.Yields first good)
    (better : ∀ c, good c → good' c) : sel.Yields first good' :=
  fun st m reached set g c st' w drawn => better c (yields st m reached set g c st' w drawn)

/-- From the same state and the same memory a draw ends alike. -/
theorem drawTogether_self {α : Type} {a b : sel.State} {f : sel.State → Draw M α}
    {Q : α → α → M → M → Prop}
    (post : ∀ x g g' m m', sel.Reachable first a m → f a ⟨g, m⟩ = .ok (x, ⟨g', m'⟩) → Q x x m' m') :
    DrawTogether (fun m m' => (a, m) = (b, m') ∧ sel.Reachable first a m) (f a) (f b) Q
      fun _ => True := by
  rintro g m _ ⟨same, reached⟩
  obtain ⟨rfl, rfl⟩ := Prod.mk.inj same
  cases drawn : f a ⟨g, m⟩ with
  | error e => exact .fault trivial
  | ok ended =>
    obtain ⟨x, g', m'⟩ := ended
    exact .value (post x g g' m m' reached drawn)

/-- A selector that yields only good candidates keeps pace with itself. -/
def Yields.sync (yields : sel.Yields first good) :
    sel.Sync (· = ·) good fun _ => True where
  Rel _ a b := a = b ∧ sel.Reachable first a.1 a.2
  loose := id
  size := by
    rintro s _ a b m m' rfl ⟨same, -⟩
    obtain ⟨rfl, -⟩ := Prod.mk.inj same
    exact ⟨rfl, fun _ _ => trivial⟩
  handle := by
    rintro s _ a b rfl hook n
    exact drawTogether_self (f := sel.handle hook ⟨s, n⟩) fun x g g' m m' reached handled =>
      ⟨rfl, .handle hook _ reached handled⟩
  restart := by
    rintro s _ a b rfl n
    exact drawTogether_self (f := sel.restart ⟨s, n⟩) fun x g g' m m' reached restarted =>
      ⟨rfl, .restart _ reached restarted⟩
  next := by
    rintro s _ a b rfl n
    refine drawTogether_self (f := sel.next ⟨s, n⟩) fun x g g' m m' reached drawn =>
      ⟨rfl, ⟨rfl, .next _ reached drawn⟩, ?_⟩
    rintro c found
    obtain ⟨_, st'⟩ := x
    obtain rfl : _ = some c := found
    exact yields _ _ reached _ g c st' _ drawn

/-- A selector that keeps a relation which does not depend on what the search is doing yields only
good candidates. -/
theorem Sync.yields {faults : Fault → Prop} (sync : sel.Sync (· = ·) good faults)
    (paceless : ∀ p p' a b, sync.Rel p a b → sync.Rel p' a b)
    (begins : sync.Rel .idle (sel.start, first) (sel.start, first)) : sel.Yields first good := by
  have related {st m} (reached : sel.Reachable first st m) :
      sync.Rel .tight (st, m) (st, m) := by
    induction reached with
    | start => exact paceless _ _ _ _ begins
    | @handle st st' m m' g g' hook set before handled ih =>
      have ended := sync.handle (s := set.solution) rfl hook set.patience g m m
        (paceless _ _ _ _ ih)
      rw [handled] at ended
      exact paceless _ _ _ _ ended.related
    | @restart st st' m m' g g' set before restarted ih =>
      have ended := sync.restart (s := set.solution) rfl set.patience g m m (paceless _ _ _ _ ih)
      rw [restarted] at ended
      exact ended.related
    | @next st st' m m' g g' c set before drawn ih =>
      have ended := sync.next (s := set.solution) rfl set.patience g m m ih
      rw [drawn] at ended
      exact ended.related.2.1
  intro st m reached set g c st' w drawn
  have ended := sync.next (s := set.solution) rfl set.patience g m m (related reached)
  rw [drawn] at ended
  exact ended.related.2.2 c rfl

end Selector

/-! ## Phases -/

/-- The placer lists only good moves. -/
def Placer.Yields (p : Placer S) (good : Move S → Prop) : Prop :=
  ∀ s, ∀ placement ∈ p.next s, ∀ m ∈ placement.moves, good m

/-- The phase tries only good moves. -/
def Phase.Yields (good : Move S → Prop) : Phase M S sh → Prop
  | .construction p => p.placer.Yields good
  | .localSearch p => p.moves.Yields p.memory good

variable {good : Move S → Prop}

theorem Phase.Yields.mono {good' : Move S → Prop} {p : Phase M S sh} (yields : p.Yields good)
    (better : ∀ m, good m → good' m) : p.Yields good' := by
  cases p with
  | construction p =>
    exact fun s placement found m listed => better m (yields s placement found m listed)
  | localSearch p => exact Selector.Yields.mono yields better

/-- A search whose phases try only good moves is guided by what its selectors can come to. -/
theorem exists_guides_yields {phases : List (Phase M S sh)} (yields : ∀ p ∈ phases, p.Yields good) :
    ∃ guides : Guides (· = ·) good (fun _ => True) True phases,
      guides.Resting (startAll phases) (startAll phases) ∧
        ∀ e a b, guides.Left e a b → guides.Resting a b := by
  refine Guides.exists_of_each fun p member => ?_
  cases p with
  | construction p =>
    have places : p.placer.Places (· = ·) good := by
      rintro s _ rfl
      exact ⟨rfl, yields _ member s⟩
    exact ⟨.construction places, trivial, fun _ _ _ => trivial⟩
  | localSearch p =>
    have yields : p.moves.Yields p.memory good := yields _ member
    exact ⟨.localSearch yields.sync (p.calm_of_overflow trivial), ⟨⟨rfl, .start⟩, .refl p, .refl p⟩,
      fun a b searching => ⟨searching.selector, searching.left, searching.right⟩⟩

/-- The phases of a built solver try only moves of its registry. -/
theorem Assembly.yields_solver {r : Assembly.Registry S} {c : Config.SolverSettings}
    {solver : Solver Assembly.Memory S sh} (built : Assembly.solver r c = .ok solver) :
    ∀ p ∈ solver.phases, p.Yields r.Offers := by
  intro p member
  have gaited := gaited_solver False r.even_eq trivial trivial False.elim built p member
  cases p with
  | construction p => exact fun s => (gaited s s rfl).2
  | localSearch p =>
    obtain ⟨empty, range, own, ⟨gait⟩⟩ := gaited
    refine Selector.Sync.yields gait.constant (fun _ _ _ _ => id) ⟨gait.start (.inl rfl), ?_⟩
    rw [empty]
    exact Assembly.Memory.recall_start.mono (Set.empty_subset _)

end PlanSearch
