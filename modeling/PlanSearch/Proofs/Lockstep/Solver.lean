import PlanSearch.Proofs.Lockstep.LocalSearch

/-!
# Solvers side by side

A guide says for every phase how two searches keep what the phase keeps together. With guides for
all phases, two runs of a solver answer alike.
-/

namespace PlanSearch

/-- The solver with another decision about what is checked. -/
def Solver.under {M S : Type} {sh : Shape} (solver : Solver M S sh) (mode : Config.EnvironmentMode) :
    Solver M S sh := { solver with mode }

/-- Related ends are related in what they are mapped to. -/
theorem EndAlike.map {σ τ α : Type} {Q : α → σ → σ → Prop} {F : Fault → σ → σ → Prop}
    {Q' : α → τ → τ → Prop} {F' : Fault → τ → τ → Prop} {x y : Except Fault α × σ} (u v : σ → τ)
    (h : EndAlike Q F x y) (value : ∀ a s t, Q a s t → Q' a (u s) (v t))
    (fault : ∀ e s t, F e s t → F' e (u s) (v t)) : EndAlike Q' F' (x.1, u x.2) (y.1, v y.2) := by
  cases h with
  | value related => exact .value (value _ _ _ related)
  | fault related => exact .fault (fault _ _ _ related)

/-! ## Guides -/

section Guides

variable {M S : Type} {sh : Shape}

/-- How the states of a phase are kept together. -/
inductive Guide (Same : S → S → Prop) (good : Move S → Prop) (faults : Fault → Prop)
    (anneals : Prop) : Phase M S sh → Type 1
  | construction {p : Construction S sh} (places : p.placer.Places Same good) :
    Guide Same good faults anneals (.construction p)
  | localSearch {p : LocalSearch M S sh} (sync : p.moves.Sync Same good faults)
    (calm : p.Calm faults anneals) : Guide Same good faults anneals (.localSearch p)

/-- How the states of several phases are kept together. -/
inductive Guides (Same : S → S → Prop) (good : Move S → Prop) (faults : Fault → Prop)
    (anneals : Prop) : List (Phase M S sh) → Type 1
  | nil : Guides Same good faults anneals []
  | cons {p : Phase M S sh} {rest : List (Phase M S sh)} (guide : Guide Same good faults anneals p)
    (others : Guides Same good faults anneals rest) : Guides Same good faults anneals (p :: rest)

variable {Same : S → S → Prop} {good : Move S → Prop} {faults : Fault → Prop} {anneals : Prop}

/-- The states that a phase keeps between runs are related. -/
def Guide.Resting : {p : Phase M S sh} → Guide Same good faults anneals p → p.State → p.State → Prop
  | _, .construction _, _, _ => True
  | _, .localSearch sync _, a, b => LocalSearch.Resting sync a b

/-- The states that a phase keeps are related as they are within a run. -/
def Guide.Searching : {p : Phase M S sh} → Guide Same good faults anneals p → p.State → p.State → Prop
  | _, .construction _, _, _ => True
  | _, .localSearch sync _, a, b => LocalSearch.Searching sync a b

/-- What a phase keeps after an error. Only where there was no move, the phase was ended. -/
def Guide.Left {p : Phase M S sh} (guide : Guide Same good faults anneals p) (e : PlanError)
    (a b : p.State) : Prop :=
  guide.Resting a b ∨ e.kind ≠ "Stall" ∧ guide.Searching a b

namespace Guides

open Solver

/-- A relation that the states of every phase are in. -/
def All (P : {p : Phase M S sh} → Guide Same good faults anneals p → p.State → p.State → Prop) :
    {phases : List (Phase M S sh)} → Guides Same good faults anneals phases → PhaseStates phases →
      PhaseStates phases → Prop
  | _, .nil, _, _ => True
  | _, .cons guide others, (a, as), (b, bs) => P guide a b ∧ others.All P as bs

variable {phases : List (Phase M S sh)} (guides : Guides Same good faults anneals phases)

/-- The states that the phases keep between runs are related. -/
def Resting (a b : PhaseStates phases) : Prop := guides.All Guide.Resting a b

/-- The states of the phases after an error. -/
def Left (e : PlanError) (a b : PhaseStates phases) : Prop := guides.All (fun guide => guide.Left e) a b

variable {guides} {a b : PhaseStates phases}

theorem All.mono {P Q : {p : Phase M S sh} → Guide Same good faults anneals p → p.State → p.State → Prop}
    (h : guides.All P a b) (each : ∀ {p} (guide : Guide Same good faults anneals p) a b,
      P guide a b → Q guide a b) : guides.All Q a b := by
  induction guides with
  | nil => trivial
  | cons guide others ih => exact ⟨each guide _ _ h.1, ih h.2⟩

theorem Resting.left (resting : guides.Resting a b) (e : PlanError) : guides.Left e a b :=
  All.mono resting fun _ _ _ h => .inl h

/-- Where there was no move, all phases were ended. -/
theorem Left.resting {e : PlanError} (left : guides.Left e a b) (stalled : e.kind = "Stall") :
    guides.Resting a b :=
  All.mono left fun _ _ _ h => h.resolve_right fun other => other.1 stalled

/-- Phases that each have a guide by which they rest when they begin, and whenever they are left, are
guided together. -/
theorem exists_of_each {phases : List (Phase M S sh)}
    (each : ∀ p ∈ phases, ∃ guide : Guide Same good faults anneals p, guide.Resting p.start p.start ∧
      ∀ a b, guide.Searching a b → guide.Resting a b) :
    ∃ guides : Guides Same good faults anneals phases, guides.Resting (startAll phases) (startAll phases) ∧
      ∀ e a b, guides.Left e a b → guides.Resting a b := by
  induction phases with
  | nil => exact ⟨.nil, trivial, fun _ _ _ _ => trivial⟩
  | cons p rest ih =>
    obtain ⟨⟨guide, begins, closed⟩, others⟩ := List.forall_mem_cons.1 each
    obtain ⟨guides, begin_, close⟩ := ih others
    exact ⟨.cons guide guides, ⟨begins, begin_⟩, fun e a b left =>
      ⟨left.1.elim id fun searching => closed _ _ searching.2, close e _ _ left.2⟩⟩

end Guides

/-! ### Guides for more faults -/

variable {Same' : S → S → Prop} {faults' : Fault → Prop} {anneals' : Prop}
variable (looks : ∀ s s', Same' s s' → Same s s') (allowed : ∀ e, faults e → faults' e)
variable (more : anneals → anneals')

/-- Fewer solutions look the same, or more faults are allowed. -/
def Guide.weaken {p : Phase M S sh} :
    Guide Same good faults anneals p → Guide Same' good faults' anneals' p
  | .construction places => .construction fun a b same => places a b (looks a b same)
  | .localSearch sync calm => .localSearch (sync.weaken looks allowed) (calm.mono allowed more)

/-- Fewer solutions look the same, or more faults are allowed. -/
def Guides.weaken {phases : List (Phase M S sh)} :
    Guides Same good faults anneals phases → Guides Same' good faults' anneals' phases
  | .nil => .nil
  | .cons guide others => .cons (guide.weaken looks allowed more) others.weaken

variable {looks allowed more}

section

variable {p : Phase M S sh} {guide : Guide Same good faults anneals p} {a b : p.State}

theorem Guide.resting_weaken : (guide.weaken looks allowed more).Resting a b ↔ guide.Resting a b := by
  cases guide with
  | construction places => exact Iff.rfl
  | localSearch sync calm =>
    exact ⟨fun h => ⟨h.selector, h.left, h.right⟩, fun h => ⟨h.selector, h.left, h.right⟩⟩

theorem Guide.searching_weaken :
    (guide.weaken looks allowed more).Searching a b ↔ guide.Searching a b := by
  cases guide with
  | construction places => exact Iff.rfl
  | localSearch sync calm =>
    exact ⟨fun h => ⟨h.selector, h.acceptor, h.left, h.right⟩,
      fun h => ⟨h.selector, h.acceptor, h.left, h.right⟩⟩

end

section

variable {phases : List (Phase M S sh)} {guides : Guides Same good faults anneals phases}
variable {a b : Solver.PhaseStates phases}

theorem Guides.resting_weaken : (guides.weaken looks allowed more).Resting a b ↔ guides.Resting a b := by
  induction guides with
  | nil => exact Iff.rfl
  | cons guide others ih => exact and_congr Guide.resting_weaken ih

theorem Guides.left_weaken {e : PlanError} :
    (guides.weaken looks allowed more).Left e a b ↔ guides.Left e a b := by
  induction guides with
  | nil => exact Iff.rfl
  | cons guide others ih =>
    exact and_congr (or_congr Guide.resting_weaken (and_congr_right' Guide.searching_weaken)) ih

end

end Guides

namespace Lockstep

open Solver

variable {M S ι : Type} {sh : Shape} {c : Conditions S sh} {mode : Config.EnvironmentMode}
variable {good : Move S → Prop} {L : Lockstep c mode good ι} {i j : ι} {x : Score sh}

/-! ## Phases -/

theorem course_phase {p : Phase M S sh} (guide : Guide L.Same good L.faults L.anneals p) (index : Nat)
    {s t : Scope S sh}
    {a b : p.State} (here : L.At i x s t) (resting : guide.Resting a b) :
    L.Course Prod.fst (fun r r' => guide.Resting r.2 r'.2)
      (fun e r r' => L.Failed e r.1 r'.1 ∧ guide.Left e r.2 r'.2) i (p.trail c index s a)
      (p.trail (c.under mode) index t b)
      ((p.run c index s a).result, (p.run c index s a).scope, (p.run c index s a).own)
      ((p.run (c.under mode) index t b).result, (p.run (c.under mode) index t b).scope,
        (p.run (c.under mode) index t b).own) := by
  cases guide with
  | @construction p places =>
    obtain ⟨j, along, ended⟩ := L.course_construction places index here
    refine ⟨j, along, ended.map (fun s => (s, a)) (fun t => (t, b)) ?_ fun _ _ _ => id⟩
    rintro (e | ⟨⟩) s t related
    · exact ⟨related, .inl trivial⟩
    · obtain ⟨y, here, -⟩ := related
      exact ⟨y, here, trivial⟩
  | @localSearch p sync calm =>
    have both : Both (L.At i x) (LocalSearch.Resting sync) (⟨s, a⟩ : p.Running) ⟨t, b⟩ :=
      ⟨here, resting⟩
    obtain ⟨j, along, ended⟩ := L.course_localSearch sync calm index both
    refine ⟨j, along, ended.map (fun r => (r.scope, r.own)) (fun r => (r.scope, r.own)) ?_
      fun _ _ _ => id⟩
    rintro (e | ⟨⟩) r r' related
    · obtain ⟨failed, stalled, searching⟩ := related
      refine ⟨failed, ?_⟩
      by_cases h : e.kind = "Stall"
      · exact .inl (stalled h)
      · exact .inr ⟨h, searching h⟩
    · exact related

theorem course_runAll {phases : List (Phase M S sh)} (guides : Guides L.Same good L.faults L.anneals phases)
    (index : Nat)
    {s t : Scope S sh} {a b : PhaseStates phases} (here : L.At i x s t)
    (resting : guides.Resting a b) :
    L.Course Prod.fst (fun r r' => guides.Resting r.2 r'.2)
      (fun e r r' => L.Failed e r.1 r'.1 ∧ guides.Left e r.2 r'.2) i (trailAll c phases index s a)
      (trailAll (c.under mode) phases index t b)
      ((runAll c phases index s a).result, (runAll c phases index s a).scope,
        (runAll c phases index s a).own)
      ((runAll (c.under mode) phases index t b).result,
        (runAll (c.under mode) phases index t b).scope,
        (runAll (c.under mode) phases index t b).own) := by
  induction guides generalizing index i x s t with
  | nil => exact ⟨i, .nil (L.goes_refl i), .value (a := Except.ok ()) ⟨x, here, trivial⟩⟩
  | @cons p rest guide others ih =>
    obtain ⟨a, as⟩ := a
    obtain ⟨b, bs⟩ := b
    obtain ⟨own, rested⟩ := resting
    have looked := L.peek (i := i) (x := x) (.isTerminated c) s t here
    change EndAlike _ _ _ ((Search.isTerminated (c.under mode)).run t) at looked
    change EndAlike _ _ ((Search.isTerminated c).run s) _ at looked
    rw [trailAll, trailAll, runAll, runAll]
    generalize (Search.isTerminated c).run s = reached at looked ⊢
    generalize (Search.isTerminated (c.under mode)).run t = reached' at looked ⊢
    cases looked with
    | fault broken => exact ⟨i, .nil (L.goes_refl i), .fault broken⟩
    | @value stop s t here =>
      cases stop with
      | true =>
        exact ⟨i, .nil (L.goes_refl i), .value (a := Except.ok ()) ⟨x, here, own, rested⟩⟩
      | false =>
        obtain ⟨j, along, ended⟩ := course_phase guide index here own
        dsimp only
        generalize p.run c index s a = first at ended ⊢
        generalize p.run (c.under mode) index t b = first' at ended ⊢
        obtain ⟨result, s', a'⟩ := first
        obtain ⟨result', t', b'⟩ := first'
        dsimp only at ended ⊢
        cases ended with
        | fault broken => exact ⟨j, along.append (.nil (L.goes_refl j)), .fault broken⟩
        | @value result _ _ related =>
          match result, related with
          | .error e, ⟨failed, left⟩ =>
            exact ⟨j, along.append (.nil (L.goes_refl j)),
              .value (a := Except.error e) ⟨failed, left, Guides.Resting.left rested e⟩⟩
          | .ok (), ⟨y, here, resting⟩ =>
            obtain ⟨k, further, ended⟩ := ih (index + 1) here rested
            refine ⟨k, along.append further, ?_⟩
            refine ended.map (fun r => (r.1, a', r.2)) (fun r => (r.1, b', r.2)) ?_ ?_
            · rintro (e | ⟨⟩) r r' related
              · exact ⟨related.1, .inl resting, related.2⟩
              · obtain ⟨z, here, rested⟩ := related
                exact ⟨z, here, resting, rested⟩
            · exact fun _ _ _ broken => broken

/-! ## Solvers -/

variable {solver : Solver M S sh}

variable (L) in
/-- Two runs of a solver answer alike, with related scopes at the end of the phases. They are
cancelled only if they were asked to stop before they began. -/
inductive Answers (guides : Guides L.Same good L.faults L.anneals solver.phases) (asked : Prop) (j : ι) :
    Except (Collapse S sh) (Outcome S sh × solver.State) →
    Except (Collapse S sh) (Outcome S sh × (solver.under mode).State) → Prop
  | solved {y : Score sh} {s t : Scope S sh} {a b : PhaseStates solver.phases}
    (here : L.At j y s t) (resting : guides.Resting a b) :
    Answers guides asked j (.ok (finish c s { phases := a }))
      (.ok (finish (c.under mode) t { phases := b }))
  | failed {e : PlanError} {s t : Scope S sh} {a b : PhaseStates solver.phases}
    (failed : L.Failed e s t) (left : guides.Left e a b) :
    Answers guides asked j (.ok (⟨.error e, s.events.toList⟩, { phases := a }))
      (.ok (⟨.error e, t.events.toList⟩, { phases := b }))
  | cancelled {a b : PhaseStates solver.phases} (before : asked) (resting : guides.Resting a b) :
    Answers guides asked j (.ok (⟨.error .cancelled, []⟩, { phases := a }))
      (.ok (⟨.error .cancelled, []⟩, { phases := b }))
  | collapsed {e : Fault} {s t : Scope S sh} (broken : L.Broken e s t) :
    Answers guides asked j (.error ⟨e, s.events.toList⟩) (.error ⟨e, t.events.toList⟩)

theorem course_solve (around : Surroundings S sh) (known : c = solver.conditions around)
    (guides : Guides L.Same good L.faults L.anneals solver.phases) {entropy : Nat} {solution : S}
    (st : solver.State) (st' : (solver.under mode).State) (resting : guides.Resting st.phases st'.phases)
    (asked : st.interrupted = st'.interrupted)
    (opens : RunTogether (fun s t => s = solver.opening entropy solution ∧
        t = solver.opening entropy solution) (Search.start c) (Search.start (c.under mode))
      (fun _ s t => ∃ x, L.At i x s t) L.Broken) :
    ∃ j, L.Along i (solver.trail around entropy solution st)
        ((solver.under mode).trail around entropy solution st') j ∧
      L.Answers guides (st.interrupted = true) j (solver.solve around entropy solution st)
        ((solver.under mode).solve around entropy solution st') := by
  have same : (solver.under mode).conditions around = c.under mode := known ▸ rfl
  rw [solve_eq, solve_eq, Solver.trail, Solver.trail, same, ← known, ← asked]
  split
  · rename_i before
    exact ⟨i, .nil (L.goes_refl i), .cancelled before resting⟩
  · have began := opens _ _ ⟨rfl, rfl⟩
    change EndAlike _ _ _ ((Search.start (c.under mode)).run
      ((solver.under mode).opening entropy solution)) at began
    change EndAlike _ _ ((Search.start c).run (solver.opening entropy solution)) _ at began
    generalize (Search.start c).run (solver.opening entropy solution) = reached at began ⊢
    generalize (Search.start (c.under mode)).run
      ((solver.under mode).opening entropy solution) = reached' at began ⊢
    cases began with
    | fault broken => exact ⟨i, .nil (L.goes_refl i), .collapsed broken⟩
    | @value _ s t related =>
      obtain ⟨x, here⟩ := related
      obtain ⟨j, along, ended⟩ := course_runAll guides 0 here resting
      refine ⟨j, along, ?_⟩
      dsimp only
      generalize runAll c solver.phases 0 s st.phases = first at ended ⊢
      change EndAlike _ _ _
        (let ended := runAll (c.under mode) (solver.under mode).phases 0 t st'.phases
        (ended.result, ended.scope, ended.own)) at ended
      generalize runAll (c.under mode) (solver.under mode).phases 0 t st'.phases = first' at ended ⊢
      obtain ⟨result, s', a⟩ := first
      obtain ⟨result', t', b⟩ := first'
      dsimp only at ended ⊢
      cases ended with
      | fault broken => exact .collapsed broken
      | @value result _ _ related =>
        match result, related with
        | .error e, ⟨failed, left⟩ => exact .failed failed left
        | .ok (), ⟨y, here, resting⟩ => exact .solved here resting

end Lockstep

end PlanSearch
