import PlanSearch.Proofs.Fault
import PlanSearch.Proofs.Lockstep.Selector
import PlanSearch.Proofs.Random.Draws
import PlanSearch.Proofs.Selector.Memory

/-!
# How selectors keep pace

A gait says for every bond that the states of a selector can be in how it is kept. Two selectors
whose states are the same stay the same. Otherwise the states are bound as closely as the course of
a search makes them: within a pass they yield the same candidates, between passes they hold the same
lists, and between phases they hold nothing that matters.
-/

namespace PlanSearch

open Assembly

variable {S C D α β : Type} {range : Nat → Prop} {faults : Fault → Prop}

/-! ## Draws that go together -/

/-- From memories that hold the same candidates two draws end alike, with memories that do. -/
def Together (range : Nat → Prop) (faults : Fault → Prop) (K K' : Set Slot) (f g : Draw Memory α)
    (Q : α → α → Prop) : Prop :=
  DrawTogether (Memory.Recall range K) f g (fun a b m m' => Q a b ∧ Memory.Recall range K' m m') faults

namespace Together

variable {J K K' : Set Slot} {f g : Draw Memory α} {k l : α → Draw Memory β}
variable {Q Q' : α → α → Prop} {P : β → β → Prop}

theorem mono (h : Together range faults K K' f g Q) (post : ∀ a b, Q a b → Q' a b) :
    Together range faults K K' f g Q' :=
  h.consequence (fun _ _ => id) fun a b _ _ related => ⟨post a b related.1, related.2⟩

theorem pure {a b : α} (related : Q a b) : Together range faults K K (Pure.pure a) (Pure.pure b) Q :=
  DrawTogether.pure fun _ _ recalled => ⟨related, recalled⟩

theorem bind (first : Together range faults J K f g Q)
    (rest : ∀ a b, Q a b → Together range faults K K' (k a) (l b) P) :
    Together range faults J K' (f >>= k) (g >>= l) P :=
  DrawTogether.bind first fun a b generator m m' related =>
    rest a b related.1 generator m m' related.2

theorem fail {e : Fault} (allowed : faults e) :
    Together range faults K K' (Draw.fail e) (Draw.fail e) Q := fun _ _ _ _ => .fault allowed

theorem generate {f : Random.Generator → Except Fault (α × Random.Generator)}
    (breaks : ∀ g, Breaks faults (f g)) :
    Together range faults K K (Draw.generate f) (Draw.generate f)
      fun a b => a = b ∧ ∃ g g', f g = .ok (a, g') := by
  intro generator m m' recalled
  unfold Draw.generate
  dsimp only
  cases drawn : f generator with
  | error e => exact .fault (breaks generator e drawn)
  | ok a => exact .value ⟨⟨rfl, _, _, drawn⟩, recalled⟩

theorem below {bound : Nat} (positive : bound ≠ 0) :
    Together range faults K K (Draw.below bound) (Draw.below bound) (· = ·) := by
  refine mono (.generate fun g => ?_) fun _ _ => And.left
  obtain ⟨r, drawn⟩ := g.below_eq positive
  rw [drawn]
  exact .ok r

theorem lift {x : Except Fault α} (breaks : Breaks faults x) :
    Together range faults K K (Draw.lift x) (Draw.lift x) fun a b => a = b ∧ x = .ok a := by
  intro generator m m' recalled
  unfold Draw.lift
  cases x with
  | error e => exact .fault (breaks e rfl)
  | ok a => exact .value ⟨⟨rfl, rfl⟩, recalled⟩

section Recorder

variable {C : Type} [Candidate C] [HasSlots C] (id : String)

theorem get : Together range faults K K (Recorder.get (Candidate.recorder id : Recorder Memory C))
    (Recorder.get (Candidate.recorder id))
    fun x y => x = y ∧ ∀ c ∈ x, HasSlots.InRange range c := by
  intro generator m m' recalled
  have known := HasSlots.inRange_recorded (C := C) id recalled
  unfold Recorder.get
  dsimp only
  rw [← HasSlots.recorded_congr id recalled]
  exact .value ⟨⟨rfl, known⟩, recalled⟩

theorem put (c : Option C) (known : HasSlots.slot C id ∈ K)
    (inRange : ∀ c' ∈ c, HasSlots.InRange range c') :
    Together range faults K K (Recorder.put (Candidate.recorder id : Recorder Memory C) c)
      (Recorder.put (Candidate.recorder id) c) fun _ _ => True :=
  fun _ _ _ recalled => .value ⟨trivial, HasSlots.record id c recalled known inRange⟩

theorem clear :
    Together range faults K (K \ {HasSlots.slot C id})
      (Recorder.put (Candidate.recorder id : Recorder Memory C) none)
      (Recorder.put (Candidate.recorder id : Recorder Memory C) none) fun _ _ => True :=
  fun _ _ _ recalled => .value ⟨trivial, HasSlots.clear id recalled⟩

end Recorder

end Together

/-! ## Bonds -/

/-- How two states of a selector are bound. -/
inductive Bond where
  /-- As closely as the course of a search makes them. -/
  | pace (p : Pace)
  /-- They are the same. -/
  | same

namespace Bond

/-- The bond of a selector that another one runs through passes of its own. -/
def inner : Bond → Bond
  | pace .tight => pace .loose
  | b => b

/-- The states are in the same place of a pass. -/
def IsPlaced : Bond → Prop
  | pace .tight | same => True
  | pace .idle | pace .loose => False

/-- No phase is under way. -/
def IsIdle : Bond → Prop
  | pace .idle => True
  | _ => False

theorem not_isIdle_loose : ¬(pace .loose).IsIdle := not_false

theorem not_isIdle_same : ¬same.IsIdle := not_false

variable {b : Bond}

theorem not_isIdle_inner (busy : ¬b.IsIdle) : ¬b.inner.IsIdle := by
  cases b with
  | same => exact busy
  | pace p => cases p <;> exact busy

/-- A new selector runs through passes of new ones. -/
theorem inner_new (new : b = .same ∨ b.IsIdle) : b.inner = .same ∨ b.inner.IsIdle := by
  rcases new with rfl | idle
  · exact .inl rfl
  · cases b with
    | same => exact .inl rfl
    | pace p => cases p <;> first | exact .inr trivial | cases idle

end Bond

/-- What a hook does to a bond. Other bonds than sameness are kept only if `cyc` holds. -/
inductive Hook.Leads (cyc : Prop) (hook : Hook) : Bond → Bond → Prop
  | same : Leads cyc hook .same .same
  | pace (h : cyc) : Leads cyc hook (.pace hook.before) (.pace hook.after)

/-- What the beginning of a pass does to a bond. -/
inductive Bond.Begins (cyc : Prop) : Bond → Bond → Prop
  | same : Begins cyc .same .same
  | pace (h : cyc) : Begins cyc (.pace .loose) (.pace .tight)

/-- The places in which something may be held after a hook. -/
def Hook.leaves (hook : Hook) (own K : Set Slot) : Set Slot :=
  if hook = .phaseEnded then K \ own else K

@[simp] theorem Hook.leaves_empty (hook : Hook) (K : Set Slot) : hook.leaves ∅ K = K := by
  unfold leaves
  split
  · exact Set.sdiff_empty
  · rfl

/-- The places of several selectors are left one after the other. -/
theorem Hook.leaves_union (hook : Hook) (own others K : Set Slot) :
    hook.leaves others (hook.leaves own K) = hook.leaves (own ∪ others) K := by
  unfold leaves
  split
  · exact Set.sdiff_sdiff
  · rfl

section Bonds

variable {cyc : Prop} {hook : Hook} {bond bond' : Bond}

theorem Hook.Leads.inner (leads : hook.Leads cyc bond bond') :
    bond.inner = bond ∧ bond'.inner = bond' := by
  cases leads with
  | same => exact ⟨rfl, rfl⟩
  | pace => cases hook <;> exact ⟨rfl, rfl⟩

/-- Only states that are the same are in one place after a hook. -/
theorem Hook.Leads.placed (leads : hook.Leads cyc bond bond') (placed : bond'.IsPlaced) :
    bond.IsPlaced := by
  cases leads with
  | same => exact placed
  | pace => cases hook <;> cases placed

theorem Hook.Leads.phaseEnded (leads : hook.Leads cyc bond bond') (idle : bond'.IsIdle) :
    hook = .phaseEnded := by
  cases leads with
  | same => cases idle
  | pace => cases hook <;> first | rfl | cases idle

theorem Bond.Begins.placed (begins : bond.Begins cyc bond') : bond'.IsPlaced := by
  cases begins <;> trivial

theorem Bond.Begins.inner (begins : bond.Begins cyc bond') : bond'.inner = bond := by
  cases begins <;> rfl

theorem Bond.Begins.inner_self (begins : bond.Begins cyc bond') : bond.inner = bond := by
  cases begins <;> rfl

theorem Bond.Begins.not_isIdle (begins : bond.Begins cyc bond') : ¬bond'.IsIdle := by
  cases begins <;> exact not_false

theorem Hook.Leads.begins (leads : hook.Leads cyc bond bond') (under_way : hook ≠ .phaseEnded) :
    ∃ bond'', bond'.Begins cyc bond'' := by
  cases leads with
  | same => exact ⟨_, .same⟩
  | pace h =>
    cases hook with
    | phaseEnded => exact absurd rfl under_way
    | _ => exact ⟨_, .pace h⟩

end Bonds

/-- How a selector keeps the bonds between its states about solutions of the same looks. The places
that it records in are its own, and the indices that are recorded are in the range. -/
structure Selector.Gait (sel : Selector Memory S C) (Same : S → S → Prop) (good : C → Prop)
    (range : Nat → Prop) (faults : Fault → Prop) (own : Set Slot) (cyc : Prop) where
  Rel : Bond → sel.State → sel.State → Prop
  start : ∀ {b : Bond}, b = .same ∨ b.IsIdle → Rel b sel.start sel.start
  idle : ∀ {a a' b b'}, Rel (.pace .idle) a b → Rel (.pace .idle) a' b' → Rel (.pace .idle) a b'
  loose : ∀ {a b}, Rel (.pace .tight) a b → Rel (.pace .loose) a b
  size : ∀ {bond : Bond} {s s' a b}, ¬bond.IsIdle → Same s s' → Rel bond a b →
    sel.size s a = sel.size s' b ∧ Breaks faults (sel.size s a)
  handle : ∀ {bond bond' : Bond} {s s' a b} {K : Set Slot} {hook : Hook} (n : Nat),
    hook.Leads cyc bond bond' → Same s s' → Rel bond a b → (hook ≠ .phaseEnded → own ⊆ K) →
    Together range faults K (hook.leaves own K) (sel.handle hook ⟨s, n⟩ a)
      (sel.handle hook ⟨s', n⟩ b) (Rel bond')
  restart : ∀ {bond bond' : Bond} {s s' a b} {K : Set Slot} (n : Nat), bond.Begins cyc bond' →
    Same s s' → Rel bond a b → own ⊆ K →
    Together range faults K K (sel.restart ⟨s, n⟩ a) (sel.restart ⟨s', n⟩ b) (Rel bond')
  next : ∀ {bond bond' : Bond} {s s' a b} {K : Set Slot} (n : Nat), bond.Begins cyc bond' →
    Same s s' → Rel bond' a b → own ⊆ K →
    Together range faults K K (sel.next ⟨s, n⟩ a) (sel.next ⟨s', n⟩ b)
      fun x y => x.1 = y.1 ∧ Rel bond' x.2 y.2 ∧ ∀ c ∈ x.1, good c

namespace Selector.Gait

variable {sel : Selector Memory S C} {Same : S → S → Prop} {good : C → Prop} {own K : Set Slot}
variable {cyc : Prop} (gait : sel.Gait Same good range faults own cyc) {bond bond' : Bond} {s s' : S}
variable {a b : sel.State}

/-- At the end of a pass the states are bound as they were before it. -/
theorem rel_inner (begins : bond.Begins cyc bond') (related : gait.Rel bond' a b) :
    gait.Rel bond a b := by
  cases begins with
  | same => exact related
  | pace h => exact gait.loose related

theorem drain (exhausted : faults .exhausted) (n : Nat) (begins : bond.Begins cyc bond')
    (same : Same s s') (sub : own ⊆ K) (rounds : Nat) (related : gait.Rel bond' a b)
    {found : Array C} (known : ∀ c ∈ found, good c) :
    Together range faults K K (sel.drain ⟨s, n⟩ rounds a found) (sel.drain ⟨s', n⟩ rounds b found)
      fun x y => x.1 = y.1 ∧ gait.Rel bond' x.2 y.2 ∧ ∀ c ∈ x.1, good c := by
  induction rounds generalizing a b found with
  | zero => exact .fail exhausted
  | succ rounds ih =>
    refine (gait.next n begins same related sub).bind fun x y ⟨candidate, related, isGood⟩ => ?_
    obtain ⟨c, a⟩ := x
    obtain ⟨d, b⟩ := y
    obtain rfl : c = d := candidate
    cases c with
    | none => exact .pure ⟨rfl, related, known⟩
    | some c =>
      refine ih related fun c' member => ?_
      rcases Array.mem_push.1 member with before | rfl
      · exact known c' before
      · exact isGood c' rfl

/-- The candidates of a whole pass are the same, and good. -/
theorem pass (exhausted : faults .exhausted) (n : Nat) (begins : bond.Begins cyc bond')
    (same : Same s s') (sub : own ⊆ K) (related : gait.Rel bond a b) :
    Together range faults K K (sel.pass ⟨s, n⟩ a) (sel.pass ⟨s', n⟩ b)
      fun x y => x.1 = y.1 ∧ gait.Rel bond x.2 y.2 ∧ ∀ c ∈ x.1, good c := by
  refine (gait.restart n begins same related sub).bind fun a b related => ?_
  have none : ∀ c ∈ (#[] : Array C), good c := fun c member => absurd member (Array.not_mem_empty c)
  exact (gait.drain exhausted n begins same sub n related none).mono fun x y h =>
    ⟨h.1, gait.rel_inner begins h.2.1, h.2.2⟩

/-- Within a pass, and from one pass to the next, the candidates are the same. -/
theorem nextOrRestart (n : Nat) (begins : bond.Begins cyc bond') (same : Same s s')
    (sub : own ⊆ K) (related : gait.Rel bond' a b) :
    Together range faults K K (sel.nextOrRestart ⟨s, n⟩ a) (sel.nextOrRestart ⟨s', n⟩ b)
      fun x y => x.1 = y.1 ∧ gait.Rel bond' x.2 y.2 ∧ ∀ c ∈ x.1, good c := by
  refine (gait.next n begins same related sub).bind fun x y ⟨candidate, related, isGood⟩ => ?_
  obtain ⟨c, a⟩ := x
  obtain ⟨d, b⟩ := y
  obtain rfl : c = d := candidate
  cases c with
  | some c => exact .pure ⟨rfl, related, isGood⟩
  | none =>
    refine (gait.restart n begins same (gait.rel_inner begins related) sub).bind
      fun a b related => ?_
    exact gait.next n begins same related sub

/-! ## Selectors with their memory -/

/-- The places that may hold something within a phase. -/
def held (own : Set Slot) : Pace → Set Slot
  | .idle => ∅
  | .loose | .tight => own

theorem leaves_held (hook : Hook) (own : Set Slot) :
    hook.leaves own own ⊆ held own hook.after := by
  cases hook with
  | phaseEnded => exact (Set.sdiff_self (s := own)).subset
  | _ => exact subset_rfl

/-- Draws that go together take states and memories from one relation to another. -/
theorem of_together {α : Type} {P : Prop} {J K K' : Set Slot} {f g : Draw Memory α}
    {Q : α → α → Prop} {Q' : α → α → Memory → Memory → Prop} (sub : J ⊆ K)
    (h : P → Together range faults K K' f g Q)
    (post : ∀ a b m m', Q a b → Memory.Recall range K' m m' → Q' a b m m') :
    DrawTogether (fun m m' => P ∧ Memory.Recall range J m m') f g Q' faults :=
  fun generator m m' related =>
    (h related.1).consequence (fun _ _ recalled => Memory.Recall.mono recalled sub)
      (fun a b m m' h => post a b m m' h.1 h.2) generator m m' related.2

/-- Selectors keep pace with each other from one phase to the next. -/
def cyclic (h : cyc) : sel.Sync Same good faults where
  Rel p a b := gait.Rel (.pace p) a.1 b.1 ∧ Memory.Recall range (held own p) a.2 b.2
  loose related := ⟨gait.loose related.1, related.2⟩
  size same related := gait.size Bond.not_isIdle_loose same related.1
  handle {s s' a b} same hook patience := by
    refine of_together ?_ (fun related => gait.handle patience (.pace h) same related
      fun _ => subset_rfl) fun a b m m' related recalled => ?_
    · cases hook with
      | phaseStarted => exact Set.empty_subset own
      | _ => exact subset_rfl
    · exact ⟨related, recalled.mono (leaves_held hook own)⟩
  restart same patience := of_together subset_rfl
    (fun related => gait.restart patience (.pace h) same related subset_rfl)
    fun _ _ _ _ related recalled => ⟨related, recalled⟩
  next same patience := of_together subset_rfl
    (fun related => gait.next patience (.pace h) same related subset_rfl)
    fun _ _ _ _ related recalled => ⟨related.1, ⟨related.2.1, recalled⟩, related.2.2⟩

/-- Selectors whose states are the same stay the same. -/
def constant : sel.Sync Same good faults where
  Rel _ a b := gait.Rel .same a.1 b.1 ∧ Memory.Recall range Set.univ a.2 b.2
  loose := id
  size same related := gait.size Bond.not_isIdle_same same related.1
  handle same _ patience := of_together subset_rfl
    (fun related => gait.handle patience .same same related fun _ => Set.subset_univ own)
    fun _ _ _ _ related recalled => ⟨related, recalled.mono (Set.subset_univ _)⟩
  restart same patience := of_together subset_rfl
    (fun related => gait.restart patience .same same related (Set.subset_univ own))
    fun _ _ _ _ related recalled => ⟨related, recalled⟩
  next same patience := of_together subset_rfl
    (fun related => gait.next patience .same same related (Set.subset_univ own))
    fun _ _ _ _ related recalled => ⟨related.1, ⟨related.2.1, recalled⟩, related.2.2⟩

/-! ## Candidates without passes -/

/-- Candidates that are drawn without regard to passes are the same all the time. -/
def Anew : Prop := ∀ {s s' : S} {a b : sel.State} {K : Set Slot} (n : Nat), Same s s' →
  gait.Rel (.pace .loose) a b → own ⊆ K →
  Together range faults K K (sel.nextOrRestart ⟨s, n⟩ a) (sel.nextOrRestart ⟨s', n⟩ b)
    fun x y => x.1 = y.1 ∧ gait.Rel (.pace .loose) x.2 y.2

/-- Where a pass has got to does not matter to the next candidate. -/
def Steady : Prop := ∀ {s s' : S} {a b : sel.State} {K : Set Slot} (n : Nat), Same s s' →
  gait.Rel (.pace .loose) a b → own ⊆ K →
  Together range faults K K (sel.next ⟨s, n⟩ a) (sel.next ⟨s', n⟩ b)
    fun x y => x.1 = y.1 ∧ gait.Rel (.pace .loose) x.2 y.2 ∧ ∀ c ∈ x.1, good c

variable {gait}

theorem Steady.anew (steady : gait.Steady) (h : cyc) : gait.Anew := by
  intro s s' a b K n same related sub
  refine (steady n same related sub).bind fun x y ⟨candidate, related, _⟩ => ?_
  obtain ⟨c, a⟩ := x
  obtain ⟨d, b⟩ := y
  obtain rfl : c = d := candidate
  cases c with
  | some c => exact .pure ⟨rfl, related⟩
  | none =>
    refine (gait.restart n (.pace h) same related sub).bind fun a b related => ?_
    exact (steady n same (gait.loose related) sub).mono fun x y h => ⟨h.1, h.2.1⟩

/-- A selector that no pass is begun for yields the same candidates if they are drawn anew, or if
the states are the same. -/
theorem Anew.nextOrRestart (anew : cyc → gait.Anew) (n : Nat) (begins : bond.Begins cyc bond')
    (same : Same s s') (sub : own ⊆ K) (related : gait.Rel bond'.inner a b) :
    Together range faults K K (sel.nextOrRestart ⟨s, n⟩ a) (sel.nextOrRestart ⟨s', n⟩ b)
      fun x y => x.1 = y.1 ∧ gait.Rel bond'.inner x.2 y.2 := by
  cases begins with
  | same => exact (gait.nextOrRestart n .same same sub related).mono fun x y h => ⟨h.1, h.2.1⟩
  | pace h => exact anew h n same related sub

end Selector.Gait

end PlanSearch
