import Mathlib.Data.List.Forall2
import PlanSearch.Score.Arithmetic

/-!
# How computations break off

Most computations break off with nothing but numbers that are too large. Rules for how computations
are put together lead from the faults of the parts to those of the whole.
-/

namespace PlanSearch

variable {α β : Type} {faults : Fault → Prop}

/-- Where the computation breaks off, it does so with one of the given faults. -/
def Breaks (faults : Fault → Prop) (x : Except Fault α) : Prop := ∀ e, x = .error e → faults e

theorem andThen_eq_ok {ε : Type} {α : Type u} {β : Type v} {check : Except ε α}
    {continue_ : α → Except ε β} {b : β} :
    andThen check continue_ = .ok b ↔ ∃ a, check = .ok a ∧ continue_ a = .ok b := by
  cases check <;> simp [andThen]

theorem bind_eq_ok {ε α β : Type} {x : Except ε α} {k : α → Except ε β} {b : β} :
    x >>= k = .ok b ↔ ∃ a, x = .ok a ∧ k a = .ok b := by
  cases x with
  | error e => exact ⟨nofun, nofun⟩
  | ok a => exact ⟨fun h => ⟨a, rfl, h⟩, by rintro ⟨_, ⟨⟩, h⟩; exact h⟩

theorem toOption_eq_some {ε α : Type} {x : Except ε α} {a : α} :
    x.toOption = some a ↔ x = .ok a := by
  cases x <;> simp [Except.toOption]

/-- All entries of a list yield a value if each of them does. -/
theorem mapM_eq_ok_iff {ε α β : Type} {f : α → Except ε β} {l : List α} {bs : List β} :
    l.mapM f = .ok bs ↔ List.Forall₂ (fun a b => f a = .ok b) l bs := by
  induction l generalizing bs with
  | nil => simp [pure, Except.pure, eq_comm]
  | cons a rest ih =>
    rw [List.mapM_cons, bind_eq_ok]
    simp only [bind_eq_ok, ih, List.forall₂_cons_left_iff]
    constructor
    · rintro ⟨b, first, others, following, made⟩
      cases made
      exact ⟨b, others, first, following, rfl⟩
    · rintro ⟨b, others, first, following, rfl⟩
      exact ⟨b, first, others, following, rfl⟩

theorem toArray_mapM {ε α β : Type} {n : Nat} (f : α → Except ε β) (v : Vector α n) :
    Vector.toArray <$> v.mapM f = List.toArray <$> v.toList.mapM f := by
  rw [Vector.toArray_mapM, Array.mapM_eq_mapM_toList, Vector.toList_toArray]

namespace Breaks

theorem ok (a : α) : Breaks faults (.ok a) := by rintro e ⟨⟩

theorem error {e : Fault} (allowed : faults e) : Breaks faults (.error e : Except Fault α) := by
  rintro _ ⟨⟩
  exact allowed

theorem bind {x : Except Fault α} {k : α → Except Fault β} (first : Breaks faults x)
    (rest : ∀ a, x = .ok a → Breaks faults (k a)) : Breaks faults (x >>= k) := by
  cases x with
  | error e => exact error (first e rfl)
  | ok a => exact rest a rfl

theorem map {x : Except Fault α} (f : α → β) (h : Breaks faults x) : Breaks faults (x.map f) := by
  cases x with
  | error e => exact error (h e rfl)
  | ok a => exact ok (f a)

theorem mapM {f : α → Except Fault β} {l : List α} (each : ∀ a ∈ l, Breaks faults (f a)) :
    Breaks faults (l.mapM f) := by
  induction l with
  | nil => exact ok []
  | cons a rest ih =>
    rw [List.mapM_cons]
    exact (each a (by simp)).bind fun _ _ =>
      (ih fun b member => each b (by simp [member])).bind fun _ _ => ok _

theorem vector_mapM {n : Nat} {f : α → Except Fault β} (v : Vector α n)
    (each : ∀ a, Breaks faults (f a)) : Breaks faults (v.mapM f) := by
  intro e failed
  have list : Breaks faults (v.toList.mapM f) := mapM fun a _ => each a
  have same := toArray_mapM f v
  rw [failed] at same
  cases listed : v.toList.mapM f with
  | error e' =>
    rw [listed] at same
    obtain rfl := Except.error.inj same
    exact list e listed
  | ok bs =>
    rw [listed] at same
    cases same

end Breaks

/-- The computation breaks off with nothing but numbers that are too large. -/
abbrev Overflows (x : Except Fault α) : Prop := Breaks (· = .overflow) x

theorem overflows_checked (n : Nat) : Overflows (Count.checked n) := by
  unfold Count.checked
  split
  · exact .ok n
  · exact .error rfl

theorem Level.overflows_checked (n : Int) : Overflows (Level.checked n) := by
  unfold Level.checked
  split
  · exact .ok _
  · exact .error rfl

theorem Score.overflows_sub {sh : Shape} (a b : Score sh) : Overflows (a.sub b) := by
  exact .map _ (.vector_mapM _ fun _ => Level.overflows_checked _)

/-! ## Computations that hinge on a condition -/

/-- If the condition holds, the computation yields the value. Otherwise a number is too large. -/
def HingesOn (P : Prop) (a : α) (x : Except Fault α) : Prop :=
  (P → x = .ok a) ∧ (¬P → x = .error .overflow)

namespace HingesOn

variable {P Q : Prop} {a : α} {b : β} {x : Except Fault α}

theorem of_eq (known : x = .ok a) : HingesOn True a x :=
  ⟨fun _ => known, fun fails => (fails trivial).elim⟩

theorem checked (n : Nat) : HingesOn (n ≤ Count.max) n (Count.checked n) :=
  ⟨fun small => if_pos small, fun large => if_neg large⟩

theorem bind {k : α → Except Fault β} (first : HingesOn P a x) (rest : HingesOn Q b (k a)) :
    HingesOn (P ∧ Q) b (x >>= k) := by
  by_cases holds : P
  · rw [first.1 holds]
    exact ⟨fun both => rest.1 both.2, fun fails => rest.2 fun q => fails ⟨holds, q⟩⟩
  · rw [first.2 holds]
    exact ⟨fun both => (holds both.1).elim, fun _ => rfl⟩

theorem map (f : α → β) (first : HingesOn P a x) : HingesOn P (f a) (x >>= fun a => .ok (f a)) := by
  by_cases holds : P
  · rw [first.1 holds]
    exact ⟨fun _ => rfl, fun fails => (fails holds).elim⟩
  · rw [first.2 holds]
    exact ⟨fun p => (holds p).elim, fun _ => rfl⟩

theorem overflows (hinges : HingesOn P a x) : Overflows x := by
  intro e failed
  by_cases holds : P
  · cases (hinges.1 holds).symm.trans failed
  · exact Except.error.inj (failed.symm.trans (hinges.2 holds))

theorem congr (hinges : HingesOn P a x) (same : P ↔ Q) : HingesOn Q a x :=
  ⟨fun q => hinges.1 (same.2 q), fun fails => hinges.2 (mt same.1 fails)⟩

theorem eq_ok_iff (hinges : HingesOn P a x) {b : α} : x = .ok b ↔ P ∧ b = a := by
  by_cases holds : P
  · rw [hinges.1 holds]
    exact ⟨fun same => ⟨holds, (Except.ok.inj same).symm⟩, fun both => congrArg _ both.2.symm⟩
  · rw [hinges.2 holds]
    exact ⟨nofun, fun both => absurd both.1 holds⟩

end HingesOn

end PlanSearch
