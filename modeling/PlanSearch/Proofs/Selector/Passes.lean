import PlanSearch.Proofs.Selector.Driven
import PlanSearch.Proofs.Selector.Sorted
import PlanSearch.Selector.Filter
import PlanSearch.Selector.Nearby

/-!
# The passes of selectors

A selector that does not draw at random has a list of candidates for every pass, and the draws of the
pass yield the elements of that list and then nothing. What the list is made of depends on the
solution, on where the search is, and on what the shared memory holds when the pass begins. For each
layer that a selector can be put together from, the list is that of the layer below, changed in one
way.
-/

namespace PlanSearch

/-- The solution at the beginning of the phase. -/
def Point.first {S : Type} : Point S → Option S
  | .idle => none
  | .phase first | .step first _ => some first

/-- The solution that the candidates of a cache are of, if the cache is filled. -/
def CacheType.filledWith {S : Type} : CacheType → Point S → Option S
  | .step, .step _ now => some now
  | .phase, p => p.first
  | _, _ => none

/-- In a step a cache is filled. -/
theorem CacheType.exists_filledWith {S : Type} {cache : CacheType} (cached : cache.isCached)
    (first began : S) : ∃ s, cache.filledWith (.step first began) = some s := by
  cases cache with
  | justInTime => cases cached
  | step => exact ⟨began, rfl⟩
  | phase => exact ⟨first, rfl⟩

namespace Selector

variable {M S C D : Type}

/-- The draws that are left in the pass yield the given candidates one after the other, and then
none. They leave the world as it is, and are the same in every world. -/
def Supplies (sel : Selector M S C) (set : Setting S) : List C → sel.State → Prop
  | [], st => ∃ st', ∀ w, sel.next set st w = .ok ((none, st'), w)
  | c :: rest, st =>
    ∃ st', (∀ w, sel.next set st w = .ok ((some c, st'), w)) ∧ sel.Supplies set rest st'

/-- The passes of a selector that is shown suitable solutions: it follows the search, and whenever a
pass begins, what is left of it is a list as described. -/
structure Serves (sel : Selector M S C) (shown : Point S → Setting S → Prop)
    (list : Point S → S → M → List C → Prop) where
  /-- What is known of the states of the selector. -/
  Inv : Point S → sel.State → Prop
  start : Inv .idle sel.start
  handle : ∀ {p p' hook set st}, Inv p st → p.after hook set.solution = some p' → shown p' set →
    ∀ w, ∃ st' g, sel.handle hook set st w = .ok (st', ⟨g, w.memory⟩) ∧ Inv p' st'
  restart : ∀ {p set st}, Inv p st → p.first.isSome → shown p set →
    ∀ w, ∃ st' g L, sel.restart set st w = .ok (st', ⟨g, w.memory⟩) ∧
      list p set.solution w.memory L ∧ Inv p st' ∧ sel.Supplies set L st'
  next : ∀ {p set st c st'} {w w' : World M}, Inv p st → p.first.isSome → shown p set →
    sel.next set st w = .ok ((c, st'), w') → Inv p st'

variable {sel child : Selector M S C} {shown : Point S → Setting S → Prop}
variable {list : Point S → S → M → List C → Prop}

/-- The lists of the passes can be described in another way. -/
def Serves.mono {list' : Point S → S → M → List C → Prop} (serves : Serves sel shown list)
    (sub : ∀ p s m L, list p s m L → list' p s m L) : Serves sel shown list' where
  Inv := serves.Inv
  start := serves.start
  handle := serves.handle
  restart known busy shows w := by
    obtain ⟨st', g, L, restarted, listed, known, supplies⟩ := serves.restart known busy shows w
    exact ⟨st', g, L, restarted, sub _ _ _ _ listed, known, supplies⟩
  next := serves.next

/-- The candidates that are left can be collected. -/
theorem Supplies.drain {set : Setting S} {L : List C} {st : sel.State}
    (supplies : sel.Supplies set L st) {P : sel.State → Prop} (known : P st)
    (kept : ∀ st c st' (w w' : World M), P st → sel.next set st w = .ok ((c, st'), w') → P st')
    {rounds : Nat} (short : L.length < rounds) (acc : Array C) (w : World M) :
    ∃ st', sel.drain set rounds st acc w = .ok ((acc ++ L.toArray, st'), w) ∧ P st' := by
  induction L generalizing st rounds acc with
  | nil =>
    obtain ⟨st', drawn⟩ := supplies
    obtain ⟨rounds, rfl⟩ := Nat.exists_eq_succ_of_ne_zero (Nat.ne_of_gt short)
    refine ⟨st', ?_, kept _ _ _ w w known (drawn w)⟩
    rw [Selector.drain, draw_bind_eq (drawn w), Array.append_empty]
    rfl
  | cons c rest ih =>
    obtain ⟨st', drawn, supplies⟩ := supplies
    obtain ⟨rounds, rfl⟩ := Nat.exists_eq_succ_of_ne_zero (Nat.ne_of_gt (Nat.zero_lt_of_lt short))
    obtain ⟨last, drained, known⟩ := ih supplies (kept _ _ _ w w known (drawn w))
      (Nat.lt_of_succ_lt_succ short) (acc.push c)
    refine ⟨last, ?_, known⟩
    have pushed : acc.push c ++ rest.toArray = acc ++ (c :: rest).toArray := by simp
    rw [Selector.drain, draw_bind_eq (drawn w), ← pushed]
    exact drained

/-- A whole pass collects the list of the pass. -/
theorem Serves.pass (serves : Serves child shown list) {p : Point S} {set : Setting S}
    {st : child.State} (known : serves.Inv p st) (busy : p.first.isSome) (shows : shown p set)
    (fits : ∀ m L, list p set.solution m L → L.length < set.patience) (w : World M) :
    ∃ st' g L, child.pass set st w = .ok ((L.toArray, st'), ⟨g, w.memory⟩) ∧
      list p set.solution w.memory L ∧ serves.Inv p st' := by
  obtain ⟨st', g, L, restarted, listed, known, supplies⟩ := serves.restart known busy shows w
  obtain ⟨last, drained, known⟩ := supplies.drain known
    (fun _ _ _ _ _ known drawn => serves.next known busy shows drawn) (fits _ L listed) #[]
    ⟨g, w.memory⟩
  refine ⟨last, g, L, ?_, listed, known⟩
  rw [Selector.pass, draw_bind_eq restarted, drained, Array.empty_append]

/-- A selector that counts its draws, and yields the candidate at the place that it has counted to,
supplies a list. -/
theorem Supplies.of_counted {set : Setting S} {L : List C} (At : Nat → sel.State → Prop)
    (draws : ∀ n st, At n st → ∃ st', (∀ w, sel.next set st w = .ok ((L[n]?, st'), w)) ∧
      (L[n]?.isSome → At (n + 1) st'))
    {st : sel.State} (begun : At 0 st) : sel.Supplies set L st := by
  have rest (n : Nat) (st : sel.State) (now : At n st) : sel.Supplies set (L.drop n) st := by
    induction left : L.drop n generalizing n st with
    | nil =>
      obtain ⟨st', drawn, -⟩ := draws n st now
      have none : L[n]? = none := by
        rw [← List.head?_drop, left]
        rfl
      exact ⟨st', fun w => by rw [drawn, none]⟩
    | cons c rest ih =>
      obtain ⟨st', drawn, next⟩ := draws n st now
      have found : L[n]? = some c := by
        rw [← List.head?_drop, left]
        rfl
      refine ⟨st', fun w => by rw [drawn, found], ih (n + 1) st' (next (by rw [found]; rfl)) ?_⟩
      rw [← List.tail_drop, left]
      rfl
  exact rest 0 st begun

/-! ## Candidates from the solution -/

theorem supplies_source (items : S → Array C) (set : Setting S) :
    (source items false : Selector M S C).Supplies set (items set.solution).toList (0 : Nat) := by
  refine Supplies.of_counted (fun n (cursor : Nat) => cursor = n) (fun n (cursor : Nat) now => ?_) rfl
  obtain rfl : cursor = n := now
  rw [Array.getElem?_toList]
  cases found : (items set.solution)[cursor]? with
  | none =>
    refine ⟨cursor, fun w => ?_, by simp⟩
    simp only [source_next, found]
    rfl
  | some c =>
    refine ⟨cursor + 1, fun w => ?_, fun _ => rfl⟩
    simp only [source_next, found]
    rfl

theorem mem_of_next_source {items : S → Array C} {set : Setting S} {cursor cursor' : Nat}
    {w w' : World M} {x : C}
    (drawn : (source items false).next set cursor w = .ok ((some x, cursor'), w')) :
    x ∈ items set.solution := by
  simp only [source_next, Bool.false_eq_true, if_false] at drawn
  cases found : (items set.solution)[cursor]? with
  | none =>
    rw [found] at drawn
    cases drawn
  | some y =>
    rw [found] at drawn
    cases drawn
    exact Array.mem_of_getElem? found

/-- The candidates of the solution that the selector is shown when the pass begins. -/
def servesSource (items : S → Array C) :
    Serves (source items false : Selector M S C) shown fun _ s _ L => L = (items s).toList where
  Inv _ _ := True
  start := trivial
  handle {_ _ _ _ st} _ _ _ w := ⟨st, w.generator, rfl, trivial⟩
  restart {_ set _} _ _ _ w :=
    ⟨(0 : Nat), w.generator, _, rfl, rfl, trivial, supplies_source items set⟩
  next _ _ _ _ := trivial

/-! ## Filters -/

section Filtering

variable (accepts : S → C → Bool) {set : Setting S} {L : List C} {st : child.State}

/-- Candidates are drawn until one is accepted. -/
theorem Supplies.nextAccepted (supplies : child.Supplies set L st) {rounds : Nat}
    (short : L.length < rounds) :
    match L.filter (accepts set.solution) with
    | [] => ∃ st', ∀ refused w, child.nextAccepted accepts set none rounds refused st w =
        .ok ((none, st'), w)
    | c :: more => ∃ st' rest, rest.length < L.length ∧ child.Supplies set rest st' ∧
        rest.filter (accepts set.solution) = more ∧
        ∀ refused w, child.nextAccepted accepts set none rounds refused st w =
          .ok ((some c, st'), w) := by
  induction L generalizing st rounds with
  | nil =>
    obtain ⟨st', drawn⟩ := supplies
    obtain ⟨rounds, rfl⟩ := Nat.exists_eq_succ_of_ne_zero (Nat.ne_of_gt short)
    refine ⟨st', fun refused w => ?_⟩
    rw [Selector.nextAccepted, draw_bind_eq (drawn w)]
    rfl
  | cons c rest ih =>
    obtain ⟨st', drawn, supplies⟩ := supplies
    obtain ⟨rounds, rfl⟩ := Nat.exists_eq_succ_of_ne_zero (Nat.ne_of_gt (Nat.zero_lt_of_lt short))
    have goesOn (refused : Nat) (w : World M) :
        child.nextAccepted accepts set none (rounds + 1) refused st w =
          if accepts set.solution c then .ok ((some c, st'), w)
          else child.nextAccepted accepts set none rounds (refused + 1) st' w := by
      rw [Selector.nextAccepted, draw_bind_eq (drawn w)]
      dsimp only
      split <;> rfl
    cases accepted : accepts set.solution c with
    | true =>
      rw [List.filter_cons_of_pos accepted]
      refine ⟨st', rest, Nat.lt_succ_self _, supplies, rfl, fun refused w => ?_⟩
      rw [goesOn, if_pos accepted]
    | false =>
      have later := ih supplies (Nat.lt_of_succ_lt_succ short)
      rw [List.filter_cons_of_neg (by simp [accepted])]
      have refuses (refused : Nat) (w : World M) :
          child.nextAccepted accepts set none (rounds + 1) refused st w =
            child.nextAccepted accepts set none rounds (refused + 1) st' w := by
        rw [goesOn, if_neg (by simp [accepted])]
      split at later
      · obtain ⟨last, ended⟩ := later
        exact ⟨last, fun refused w => (refuses refused w).trans (ended (refused + 1) w)⟩
      · obtain ⟨last, left, shorter, supplies, more, found⟩ := later
        exact ⟨last, left, Nat.lt_succ_of_lt shorter, supplies, more, fun refused w =>
          (refuses refused w).trans (found (refused + 1) w)⟩

/-- A filter over candidates that end does not count what it refuses. -/
theorem next_filtering (ends : child.neverEnding = false) (st : child.State) :
    (child.filtering accepts).next set st =
      child.nextAccepted accepts set none set.patience 0 st := by
  simp only [Selector.filtering, ends]
  rfl

/-- A filter supplies the candidates that are accepted. -/
theorem Supplies.filtering (ends : child.neverEnding = false) (supplies : child.Supplies set L st)
    (short : L.length < set.patience) :
    (child.filtering accepts).Supplies set (L.filter (accepts set.solution)) st := by
  have next (st : child.State) := congrFun (@next_filtering _ _ _ child accepts set ends st)
  induction length : L.length using Nat.strongRecOn generalizing L st with
  | ind n ih =>
    subst length
    have drawn := supplies.nextAccepted accepts short
    split at drawn
    · rename_i none
      obtain ⟨last, ended⟩ := drawn
      rw [none]
      exact ⟨last, fun w => (next st w).trans (ended 0 w)⟩
    · rename_i c more some
      obtain ⟨last, left, shorter, supplies, rfl, found⟩ := drawn
      rw [some]
      refine ⟨last, fun w => (next st w).trans (found 0 w), ?_⟩
      exact ih left.length shorter supplies (Nat.lt_trans shorter short) rfl

/-- What the draws of the child preserve is preserved as long as candidates are refused. -/
theorem of_nextAccepted {P : child.State → Prop} {limit : Option Nat}
    (kept : ∀ st c st' (w w' : World M), P st → child.next set st w = .ok ((c, st'), w') → P st')
    {rounds refused : Nat} {st st' : child.State} {c : Option C} {w w' : World M} (known : P st)
    (drawn : child.nextAccepted accepts set limit rounds refused st w = .ok ((c, st'), w')) :
    P st' := by
  induction rounds generalizing refused st w with
  | zero => cases drawn
  | succ rounds ih =>
    rw [Selector.nextAccepted] at drawn
    obtain ⟨⟨found, st₁⟩, w₁, first, drawn⟩ := exists_of_draw_bind drawn
    have known := kept _ _ _ _ _ known first
    cases found with
    | none =>
      cases drawn
      exact known
    | some d =>
      dsimp only at drawn
      split at drawn
      · cases drawn
        exact known
      · split at drawn
        · cases drawn
          exact known
        · exact ih known drawn

/-- The candidates that are accepted. -/
def servesFiltering (ends : child.neverEnding = false) (serves : Serves child shown list)
    (fits : ∀ p set m L, shown p set → list p set.solution m L → L.length < set.patience) :
    Serves (child.filtering accepts) shown fun p s m L =>
      ∃ near, list p s m near ∧ L = near.filter (accepts s) where
  Inv := serves.Inv
  start := serves.start
  handle := serves.handle
  restart known busy shows w := by
    obtain ⟨st', g, L, restarted, listed, known, supplies⟩ := serves.restart known busy shows w
    refine ⟨st', g, _, restarted, ⟨L, listed, rfl⟩, known, ?_⟩
    exact supplies.filtering accepts ends (fits _ _ _ _ shows listed)
  next {_ set st _ _ w _} known busy shows drawn := by
    have same : child.nextAccepted accepts set none set.patience 0 st w = _ :=
      (congrFun (next_filtering accepts ends st) w).symm.trans drawn
    exact of_nextAccepted accepts
      (fun _ _ _ _ _ known first => serves.next known busy shows first) known same

end Filtering

/-! ## Limits -/

/-- A limit supplies the first candidates, as many as are left to it. -/
theorem Supplies.limited {set : Setting S} {L : List C} {st : child.State} (limit : Nat)
    (supplies : child.Supplies set L st) (n : Nat) :
    (child.limited limit).Supplies set (L.take (limit - n)) (st, n) := by
  have next (st : child.State) (n : Nat) (w : World M) :
      (child.limited limit).next set (st, n) w = if limit ≤ n then .ok ((none, st, n), w) else
        (child.next set st >>= fun x => pure (x.1, x.2, if x.1.isSome then n + 1 else n)) w := by
    simp only [Selector.limited]
    split <;> rfl
  induction L generalizing st n with
  | nil =>
    obtain ⟨st', drawn⟩ := supplies
    rw [List.take_nil]
    by_cases reached : limit ≤ n
    · exact ⟨(st, n), fun w => (next st n w).trans (if_pos reached)⟩
    · refine ⟨(st', n), fun w => ?_⟩
      rw [next, if_neg reached, draw_bind_eq (drawn w)]
      rfl
  | cons c rest ih =>
    obtain ⟨st', drawn, supplies⟩ := supplies
    by_cases reached : limit ≤ n
    · rw [Nat.sub_eq_zero_of_le reached, List.take_zero]
      exact ⟨(st, n), fun w => (next st n w).trans (if_pos reached)⟩
    · have left : limit - n = limit - (n + 1) + 1 := by omega
      rw [left, List.take_succ_cons]
      refine ⟨(st', n + 1), fun w => ?_, ih supplies (n + 1)⟩
      rw [next, if_neg reached, draw_bind_eq (drawn w)]
      rfl

/-- The first candidates. -/
def servesLimited (limit : Nat) (serves : Serves child shown list) :
    Serves (child.limited limit) shown fun p s m L => ∃ all, list p s m all ∧ L = all.take limit where
  Inv p st := serves.Inv p st.1
  start := serves.start
  handle {_ _ _ _ st} known due shows w := by
    obtain ⟨st', g, handled, known⟩ := serves.handle known due shows w
    refine ⟨(st', st.2), g, ?_, known⟩
    simp only [Selector.limited]
    rw [draw_bind_eq handled]
    rfl
  restart known busy shows w := by
    obtain ⟨st', g, L, restarted, listed, known, supplies⟩ := serves.restart known busy shows w
    refine ⟨(st', 0), g, _, ?_, ⟨L, listed, rfl⟩, known, supplies.limited limit 0⟩
    simp only [Selector.limited]
    rw [draw_bind_eq restarted]
    rfl
  next {_ _ st _ _ _ _} known busy shows drawn := by
    simp only [Selector.limited] at drawn
    split at drawn
    · cases drawn
      exact known
    · obtain ⟨⟨found, inner⟩, w₁, first, drawn⟩ := exists_of_draw_bind drawn
      cases drawn
      exact serves.next known busy shows first

/-! ## Passes that are remembered -/

/-- The memory afterwards is that before, but for the candidate in the recorder, if there is one. -/
def Remembers (recorder : Option (Recorder M C)) (c : Option C) (m m' : M) : Prop :=
  match recorder with
  | none => m' = m
  | some r => m' = r.record c m ∧ r.recorded m' = c

/-- The draws that are left in the pass yield the given candidates one after the other, and then
none. Whenever a candidate has been yielded, it is the one in the recorder. -/
def Presents (sel : Selector M S C) (recorder : Option (Recorder M C)) (set : Setting S) :
    List C → sel.State → Prop
  | [], st => ∃ st', ∀ w, sel.next set st w = .ok ((none, st'), w)
  | c :: rest, st => ∃ st', (∀ w, ∃ w', sel.next set st w = .ok ((some c, st'), w') ∧
      Remembers recorder (some c) w.memory w'.memory) ∧ sel.Presents recorder set rest st'

/-- Wherever the calls of a search lead, the next announcement is accepted, and a pass can be begun
in every step. It yields a list as described, with nothing in the recorder at first. -/
structure Passes (sel : Selector M S C) (recorder : Option (Recorder M C))
    (shown : Point S → Setting S → Prop) (list : Point S → S → M → List C → Prop) : Prop where
  accepts : ∀ {p p' inPass hook set st}, sel.Reached shown p inPass st →
    p.after hook set.solution = some p' → shown p' set →
    ∀ w, ∃ st' w', sel.handle hook set st w = .ok (st', w')
  pass : ∀ {first began inPass set st}, sel.Reached shown (.step first began) inPass st →
    shown (.step first began) set →
    ∀ w, ∃ st' w' L, sel.restart set st w = .ok (st', w') ∧
      Remembers recorder none w.memory w'.memory ∧
      list (.step first began) set.solution w.memory L ∧ sel.Presents recorder set L st'

/-- Only passes in steps matter. -/
theorem Passes.mono {recorder : Option (Recorder M C)} {list' : Point S → S → M → List C → Prop}
    (passes : sel.Passes recorder shown list)
    (sub : ∀ first began now m L, list (.step first began) now m L →
      list' (.step first began) now m L) : sel.Passes recorder shown list' where
  accepts := passes.accepts
  pass reached shows w := by
    obtain ⟨st', w', L, restarted, emptied, listed, yields⟩ := passes.pass reached shows w
    exact ⟨st', w', L, restarted, emptied, sub _ _ _ _ _ listed, yields⟩

/-- Every call of a selector comes with the same call of another one. -/
structure Follows (sel child : Selector M S C) (view : sel.State → child.State) : Prop where
  start : view sel.start = child.start
  handle : ∀ {hook set st st'} {w w' : World M}, sel.handle hook set st w = .ok (st', w') →
    ∃ v v' : World M, child.handle hook set (view st) v = .ok (view st', v')
  restart : ∀ {set st st'} {w w' : World M}, sel.restart set st w = .ok (st', w') →
    ∃ v v' : World M, child.restart set (view st) v = .ok (view st', v')
  next : ∀ {set st c st'} {w w' : World M}, sel.next set st w = .ok ((c, st'), w') →
    ∃ v v' : World M, child.next set (view st) v = .ok ((c, view st'), v')

theorem Follows.refl : Follows sel sel id :=
  ⟨rfl, fun ran => ⟨_, _, ran⟩, fun ran => ⟨_, _, ran⟩, fun ran => ⟨_, _, ran⟩⟩

/-- What is known of the states of a selector is known wherever a search leads it. -/
theorem Serves.inv_of_reached (serves : Serves child shown list) {view : sel.State → child.State}
    (follows : Follows sel child view) {p : Point S} {inPass : Bool} {st : sel.State}
    (reached : sel.Reached shown p inPass st) : serves.Inv p (view st) := by
  induction reached with
  | start =>
    rw [follows.start]
    exact serves.start
  | announced before due shows ran known =>
    obtain ⟨v, v', ran⟩ := follows.handle ran
    obtain ⟨st', g, handled, known⟩ := serves.handle known due shows v
    obtain ⟨rfl, -⟩ := Prod.mk.inj (Except.ok.inj (ran.symm.trans handled))
    exact known
  | restarted before shows ran known =>
    obtain ⟨v, v', ran⟩ := follows.restart ran
    obtain ⟨st', g, L, restarted, -, known, -⟩ := serves.restart known rfl shows v
    obtain ⟨rfl, -⟩ := Prod.mk.inj (Except.ok.inj (ran.symm.trans restarted))
    exact known
  | drawn before shows ran known =>
    obtain ⟨v, v', ran⟩ := follows.next ran
    exact serves.next known rfl shows ran

theorem Supplies.yields {set : Setting S} {L : List C} {st : sel.State}
    (supplies : sel.Supplies set L st) : sel.Presents none set L st := by
  induction L generalizing st with
  | nil => exact supplies
  | cons c rest ih =>
    obtain ⟨st', drawn, supplies⟩ := supplies
    exact ⟨st', fun w => ⟨w, drawn w, rfl⟩, ih supplies⟩

/-- A selector that nothing remembers. -/
theorem Serves.passes (serves : Serves sel shown list) : sel.Passes none shown list where
  accepts reached due shows w := by
    obtain ⟨st', g, handled, -⟩ := serves.handle (serves.inv_of_reached .refl reached) due shows w
    exact ⟨st', _, handled⟩
  pass reached shows w := by
    obtain ⟨st', g, L, restarted, listed, -, supplies⟩ :=
      serves.restart (serves.inv_of_reached .refl reached) rfl shows w
    exact ⟨st', _, L, restarted, rfl, listed, supplies.yields⟩

section Recording

variable {recorder : Recorder M C} (holds : ∀ m c, recorder.recorded (recorder.record c m) = c)

theorem follows_recording : Follows (child.recording recorder) child id where
  start := rfl
  handle {hook _ _ _ _ _} ran := by
    obtain ⟨st', w₁, handled, ran⟩ := exists_of_draw_bind ran
    cases hook <;> cases ran <;> exact ⟨_, _, handled⟩
  restart ran := by
    obtain ⟨_, w₁, -, restarted⟩ := exists_of_draw_bind ran
    exact ⟨_, _, restarted⟩
  next ran := by
    obtain ⟨⟨c, st'⟩, w₁, drawn, ran⟩ := exists_of_draw_bind ran
    cases c <;> cases ran <;> exact ⟨_, _, drawn⟩

include holds

theorem Supplies.yields_recording {set : Setting S} {L : List C} {st : child.State}
    (supplies : child.Supplies set L st) :
    (child.recording recorder).Presents (some recorder) set L st := by
  induction L generalizing st with
  | nil =>
    obtain ⟨st', drawn⟩ := supplies
    refine ⟨st', fun w => ?_⟩
    simp only [recording]
    rw [draw_bind_eq (drawn w)]
    rfl
  | cons c rest ih =>
    obtain ⟨st', drawn, supplies⟩ := supplies
    refine ⟨st', fun w => ?_, ih supplies⟩
    refine ⟨⟨w.generator, recorder.record (some c) w.memory⟩, ?_, rfl, holds _ _⟩
    simp only [recording]
    rw [draw_bind_eq (drawn w)]
    rfl

/-- A selector whose candidates are remembered. Its lists do not depend on what it has remembered
itself. -/
theorem Serves.passes_recording (serves : Serves child shown list)
    (other : ∀ p s m L, list p s (recorder.record none m) L → list p s m L) :
    (child.recording recorder).Passes (some recorder) shown list where
  accepts {_ _ _ hook set st} reached due shows w := by
    obtain ⟨st', g, handled, -⟩ :=
      serves.handle (serves.inv_of_reached follows_recording reached) due shows w
    have handled : child.handle hook set st w = _ := handled
    simp only [recording]
    rw [draw_bind_eq handled]
    cases hook <;> exact ⟨_, _, rfl⟩
  pass reached shows w := by
    obtain ⟨st', g, L, restarted, listed, -, supplies⟩ :=
      serves.restart (serves.inv_of_reached follows_recording reached) rfl shows
        ⟨w.generator, recorder.record none w.memory⟩
    exact ⟨st', _, L, restarted, ⟨rfl, holds _ _⟩, other _ _ _ _ listed,
      supplies.yields_recording holds⟩

end Recording

end Selector

end PlanSearch
