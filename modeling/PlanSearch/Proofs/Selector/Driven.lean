import PlanSearch.Proofs.Lockstep.Selector

/-!
# How selectors are driven

A search announces its phases and steps to a selector, begins passes within the steps, and draws
candidates from them. Between two of its calls others may draw from the generator and change the
memory, and the working solution may become another one.
-/

namespace PlanSearch

variable {M S C α β : Type}

/-- A draw goes on from the value that it has yielded. -/
theorem draw_bind_eq {f : Draw M α} {k : α → Draw M β} {w w' : World M} {a : α}
    (ran : f w = .ok (a, w')) : (f >>= k) w = k a w' := by
  rw [draw_bind, ran]

/-- A draw that yields a value has gone on from a value. -/
theorem exists_of_draw_bind {f : Draw M α} {k : α → Draw M β} {w w' : World M} {b : β}
    (ran : (f >>= k) w = .ok (b, w')) :
    ∃ a v, f w = .ok (a, v) ∧ k a v = .ok (b, w') := by
  rw [draw_bind] at ran
  cases reached : f w with
  | error e =>
    rw [reached] at ran
    cases ran
  | ok r =>
    rw [reached] at ran
    exact ⟨r.1, r.2, rfl, ran⟩

/-- Where a search is, with the solutions at the beginning of its phase and of its step. -/
inductive Point (S : Type) where
  | idle
  | phase (first : S)
  | step (first now : S)

namespace Point

/-- Where a search is after an announcement that is due. -/
def after : Hook → S → Point S → Option (Point S)
  | .phaseStarted, s, idle => some (phase s)
  | .stepStarted, s, phase first => some (step first s)
  | .stepEnded, _, step first _ => some (phase first)
  | .phaseEnded, _, phase _ => some idle
  | _, _, _ => none

end Point

namespace Selector

/-- A state of a selector to which the calls of a search lead, where a pass may be under way. What
the selector may be shown depends on where the search is. -/
inductive Reached (sel : Selector M S C) (shown : Point S → Setting S → Prop) :
    Point S → Bool → sel.State → Prop
  | start : Reached sel shown .idle false sel.start
  | announced {p p' : Point S} {inPass : Bool} {st st' : sel.State} {hook : Hook} {set : Setting S}
    {w w' : World M} (before : Reached sel shown p inPass st)
    (due : p.after hook set.solution = some p') (shows : shown p' set)
    (ran : sel.handle hook set st w = .ok (st', w')) : Reached sel shown p' false st'
  | restarted {first now : S} {inPass : Bool} {st st' : sel.State} {set : Setting S}
    {w w' : World M} (before : Reached sel shown (.step first now) inPass st)
    (shows : shown (.step first now) set) (ran : sel.restart set st w = .ok (st', w')) :
    Reached sel shown (.step first now) true st'
  | drawn {first now : S} {st st' : sel.State} {set : Setting S} {c : Option C} {w w' : World M}
    (before : Reached sel shown (.step first now) true st) (shows : shown (.step first now) set)
    (ran : sel.next set st w = .ok ((c, st'), w')) : Reached sel shown (.step first now) true st'

/-! ## Selectors that do the same -/

/-- A selector does what another one does. Its states hold more than those of the other one. -/
structure Mirrors (sel' sel : Selector M S C) (forget : sel'.State → sel.State) : Prop where
  start : forget sel'.start = sel.start
  handle : ∀ hook set st, forget <$> sel'.handle hook set st = sel.handle hook set (forget st)
  restart : ∀ set st, forget <$> sel'.restart set st = sel.restart set (forget st)
  next : ∀ set st, Prod.map id forget <$> sel'.next set st = sel.next set (forget st)

end Selector

/-- What a mapped draw yields. -/
theorem draw_map (f : α → β) (g : Draw M α) (w : World M) :
    (f <$> g) w = (g w).map fun r => (f r.1, r.2) := by
  rw [map_eq_pure_bind, draw_bind]
  cases g w <;> rfl

theorem exists_of_draw_map {f : α → β} {g : Draw M α} {w w' : World M} {b : β}
    (ran : (f <$> g) w = .ok (b, w')) : ∃ a, g w = .ok (a, w') ∧ f a = b := by
  rw [draw_map] at ran
  cases reached : g w with
  | error e =>
    rw [reached] at ran
    cases ran
  | ok r =>
    rw [reached] at ran
    cases ran
    exact ⟨r.1, rfl, rfl⟩

theorem draw_map_eq {f : α → β} {g : Draw M α} {w w' : World M} {a : α}
    (ran : g w = .ok (a, w')) : (f <$> g) w = .ok (f a, w') := by
  rw [draw_map, ran]
  rfl

/-- Computations of which each yields what another one does, but for what is forgotten, do so one
after the other. -/
theorem draw_map_bind {γ δ : Type} {f : α → β} {h : γ → δ} {g : Draw M α} {g' : Draw M β}
    {k : α → Draw M γ} {k' : β → Draw M δ} (first : f <$> g = g')
    (rest : ∀ a, h <$> k a = k' (f a)) : h <$> (g >>= k) = g' >>= k' := by
  rw [← first, map_bind, bind_map_left]
  exact congrArg _ (funext rest)

namespace Selector

/-- Both selectors are led to the same states, but for what is forgotten. -/
theorem Mirrors.reached_iff {sel sel' : Selector M S C} {forget : sel'.State → sel.State}
    (mirrors : Mirrors sel' sel forget) {shown : Point S → Setting S → Prop} {p : Point S}
    {inPass : Bool} {st : sel.State} :
    sel.Reached shown p inPass st ↔ ∃ st', sel'.Reached shown p inPass st' ∧ forget st' = st := by
  constructor
  · intro reached
    induction reached with
    | start => exact ⟨sel'.start, .start, mirrors.start⟩
    | announced before due shows ran ih =>
      obtain ⟨a, reached, rfl⟩ := ih
      rw [← mirrors.handle] at ran
      obtain ⟨b, made, rfl⟩ := exists_of_draw_map ran
      exact ⟨b, .announced reached due shows made, rfl⟩
    | restarted before shows ran ih =>
      obtain ⟨a, reached, rfl⟩ := ih
      rw [← mirrors.restart] at ran
      obtain ⟨b, made, rfl⟩ := exists_of_draw_map ran
      exact ⟨b, .restarted reached shows made, rfl⟩
    | drawn before shows ran ih =>
      obtain ⟨a, reached, rfl⟩ := ih
      rw [← mirrors.next] at ran
      obtain ⟨⟨c, b⟩, made, same⟩ := exists_of_draw_map ran
      cases same
      exact ⟨b, .drawn reached shows made, rfl⟩
  · rintro ⟨st', reached, rfl⟩
    induction reached with
    | start =>
      rw [mirrors.start]
      exact .start
    | announced before due shows ran ih =>
      have made := draw_map_eq (f := forget) ran
      rw [mirrors.handle] at made
      exact .announced ih due shows made
    | restarted before shows ran ih =>
      have made := draw_map_eq (f := forget) ran
      rw [mirrors.restart] at made
      exact .restarted ih shows made
    | drawn before shows ran ih =>
      have made := draw_map_eq (f := Prod.map id forget) ran
      rw [mirrors.next] at made
      exact .drawn ih shows made

end Selector

end PlanSearch
