import PlanSearch.Selector.Basic

/-!
# Selectors side by side

Two draws go together if, from the same place of the generator and from related memories, they yield
related values at the same place of the generator, or the same fault. A selector in two states keeps
pace with itself if the two states are related in such a way that the candidates of a pass are the
same. How close the states have to be depends on when that is: they are closest within a pass.
-/

namespace PlanSearch

variable {M S C α β : Type}

/-- Two draws end alike: with related values at the same place of the generator, or with one of the
given faults. -/
inductive DrawAlike (Q : α → α → M → M → Prop) (faults : Fault → Prop) :
    Except Fault (α × World M) → Except Fault (α × World M) → Prop
  | value {a b : α} {generator : Random.Generator} {m m' : M} (related : Q a b m m') :
    DrawAlike Q faults (.ok (a, ⟨generator, m⟩)) (.ok (b, ⟨generator, m'⟩))
  | fault {e : Fault} (allowed : faults e) : DrawAlike Q faults (.error e) (.error e)

theorem DrawAlike.related {Q : α → α → M → M → Prop} {faults : Fault → Prop} {a b : α}
    {g g' : Random.Generator} {m m' : M}
    (h : DrawAlike Q faults (.ok (a, ⟨g, m⟩)) (.ok (b, ⟨g', m'⟩))) : Q a b m m' := by
  cases h with
  | value related => exact related

theorem DrawAlike.breaks {Q : α → α → M → M → Prop} {faults : Fault → Prop}
    {x y : Except Fault (α × World M)} (h : DrawAlike Q faults x y) (e : Fault)
    (failed : x = .error e) : faults e := by
  cases h with
  | value related => cases failed
  | fault allowed =>
    obtain rfl := Except.error.inj failed
    exact allowed

/-- From memories that `R` relates two draws end alike. -/
def DrawTogether (R : M → M → Prop) (f g : Draw M α) (Q : α → α → M → M → Prop)
    (faults : Fault → Prop) : Prop :=
  ∀ generator m m', R m m' → DrawAlike Q faults (f ⟨generator, m⟩) (g ⟨generator, m'⟩)

/-- A draw goes on from the value and the world that it has reached, unless it broke off. -/
theorem draw_bind (f : Draw M α) (k : α → Draw M β) (w : World M) :
    (f >>= k) w = match f w with
      | .error e => .error e
      | .ok (a, w) => k a w := by
  change (do let p ← f w; k p.1 p.2) = _
  cases f w <;> rfl

namespace DrawTogether

variable {R R' : M → M → Prop} {f g : Draw M α} {k l : α → Draw M β} {faults : Fault → Prop}
variable {Q Q' : α → α → M → M → Prop} {P : β → β → M → M → Prop}

theorem consequence (h : DrawTogether R f g Q faults) (pre : ∀ m m', R' m m' → R m m')
    (post : ∀ a b m m', Q a b m m' → Q' a b m m') : DrawTogether R' f g Q' faults := by
  intro generator m m' related
  have ended := h generator m m' (pre m m' related)
  generalize f ⟨generator, m⟩ = reached at ended ⊢
  generalize g ⟨generator, m'⟩ = reached' at ended ⊢
  cases ended with
  | value related => exact .value (post _ _ _ _ related)
  | fault allowed => exact .fault allowed

theorem pure {a b : α} (post : ∀ m m', R m m' → Q a b m m') :
    DrawTogether R (Pure.pure a) (Pure.pure b) Q faults :=
  fun _ m m' related => .value (post m m' related)

theorem bind (first : DrawTogether R f g Q faults)
    (rest : ∀ a b, DrawTogether (Q a b) (k a) (l b) P faults) :
    DrawTogether R (f >>= k) (g >>= l) P faults := by
  intro generator m m' related
  have ended := first generator m m' related
  rw [draw_bind, draw_bind]
  generalize f ⟨generator, m⟩ = reached at ended ⊢
  generalize g ⟨generator, m'⟩ = reached' at ended ⊢
  cases ended with
  | value related => exact rest _ _ _ _ _ related
  | fault allowed => exact .fault allowed

theorem mono_faults {faults' : Fault → Prop} (h : DrawTogether R f g Q faults)
    (allowed : ∀ e, faults e → faults' e) : DrawTogether R f g Q faults' := by
  intro generator m m' related
  have ended := h generator m m' related
  generalize f ⟨generator, m⟩ = reached at ended ⊢
  generalize g ⟨generator, m'⟩ = reached' at ended ⊢
  cases ended with
  | value related => exact .value related
  | fault known => exact .fault (allowed _ known)

end DrawTogether

/-- What a search is doing. -/
inductive Pace where
  /-- No phase is under way. -/
  | idle
  /-- No pass is under way, or it does not matter. -/
  | loose
  /-- A pass is under way. -/
  | tight
  deriving DecidableEq

namespace Hook

/-- When the hook is announced. -/
def before : Hook → Pace
  | phaseStarted => .idle
  | stepStarted | stepEnded | phaseEnded => .loose

/-- What the search does after the hook is announced. -/
def after : Hook → Pace
  | phaseEnded => .idle
  | phaseStarted | stepStarted | stepEnded => .loose

end Hook

/-- A relation between states of a selector, together with memories, with which the selector yields
the same candidates about solutions of the same looks, all of which are good. -/
structure Selector.Sync (sel : Selector M S C) (Same : S → S → Prop) (good : C → Prop)
    (faults : Fault → Prop) where
  Rel : Pace → sel.State × M → sel.State × M → Prop
  loose : ∀ {a b}, Rel .tight a b → Rel .loose a b
  size : ∀ {s s' a b m m'}, Same s s' → Rel .loose (a, m) (b, m') →
    sel.size s a = sel.size s' b ∧ ∀ e, sel.size s a = .error e → faults e
  handle : ∀ {s s' a b}, Same s s' → ∀ hook patience,
    DrawTogether (fun m m' => Rel hook.before (a, m) (b, m')) (sel.handle hook ⟨s, patience⟩ a)
      (sel.handle hook ⟨s', patience⟩ b) (fun a b m m' => Rel hook.after (a, m) (b, m')) faults
  restart : ∀ {s s' a b}, Same s s' → ∀ patience,
    DrawTogether (fun m m' => Rel .loose (a, m) (b, m')) (sel.restart ⟨s, patience⟩ a)
      (sel.restart ⟨s', patience⟩ b) (fun a b m m' => Rel .tight (a, m) (b, m')) faults
  next : ∀ {s s' a b}, Same s s' → ∀ patience,
    DrawTogether (fun m m' => Rel .tight (a, m) (b, m')) (sel.next ⟨s, patience⟩ a)
      (sel.next ⟨s', patience⟩ b)
      (fun a b m m' => a.1 = b.1 ∧ Rel .tight (a.2, m) (b.2, m') ∧ ∀ c, a.1 = some c → good c)
      faults

/-- Fewer solutions look the same, or more faults are allowed. -/
def Selector.Sync.weaken {sel : Selector M S C} {Same Same' : S → S → Prop} {good : C → Prop}
    {faults faults' : Fault → Prop} (sync : sel.Sync Same good faults)
    (looks : ∀ s s', Same' s s' → Same s s') (allowed : ∀ e, faults e → faults' e) :
    sel.Sync Same' good faults' where
  Rel := sync.Rel
  loose := sync.loose
  size same related := by
    obtain ⟨size, breaks⟩ := sync.size (looks _ _ same) related
    exact ⟨size, fun e failed => allowed e (breaks e failed)⟩
  handle same hook patience := (sync.handle (looks _ _ same) hook patience).mono_faults allowed
  restart same patience := (sync.restart (looks _ _ same) patience).mono_faults allowed
  next same patience := (sync.next (looks _ _ same) patience).mono_faults allowed

end PlanSearch
