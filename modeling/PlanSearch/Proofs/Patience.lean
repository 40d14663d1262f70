import Mathlib.Order.Filter.AtTopBot.Basic
import PlanSearch.Proofs.Fault
import PlanSearch.Proofs.Random.Draws
import PlanSearch.Proofs.Selector.Driven

/-!
# Enough patience

A loop goes on for at most as many rounds as there is patience. A computation settles if from some
patience on its result stays the same: then its loops come to an end by themselves, and what it
breaks off with, if it does, has nothing to do with patience. Rules for how draws are put together
lead from the parts to the whole.
-/

namespace PlanSearch

open Filter

variable {M α β : Type} {faults : Fault → Prop}

/-- Whatever the world, the draw breaks off with nothing but the given faults. -/
def Draw.BreaksWith (faults : Fault → Prop) (f : Draw M α) : Prop := ∀ w, Breaks faults (f w)

namespace Draw.BreaksWith

theorem pure (a : α) : BreaksWith faults (Pure.pure a : Draw M α) := fun w => .ok (a, w)

theorem fail {e : Fault} (allowed : faults e) : BreaksWith faults (Draw.fail e : Draw M α) :=
  fun _ => .error allowed

theorem lift {x : Except Fault α} (breaks : Breaks faults x) :
    BreaksWith faults (Draw.lift x : Draw M α) := fun _ => breaks.map _

theorem bind {f : Draw M α} {k : α → Draw M β} (first : f.BreaksWith faults)
    (rest : ∀ a, (k a).BreaksWith faults) : (f >>= k).BreaksWith faults := by
  intro w
  rw [draw_bind]
  cases reached : f w with
  | error e => exact .error (first w e reached)
  | ok r => exact rest r.1 r.2

theorem generate {f : Random.Generator → Except Fault (α × Random.Generator)}
    (breaks : ∀ g, Breaks faults (f g)) : BreaksWith faults (Draw.generate f : Draw M α) := by
  intro w
  unfold Draw.generate
  split
  · rename_i e failed
    exact .error (breaks _ e failed)
  · exact .ok _

/-- A draw below a positive bound succeeds. -/
theorem below {bound : Nat} (positive : bound ≠ 0) :
    BreaksWith faults (Draw.below bound : Draw M Nat) := by
  refine generate fun g => ?_
  obtain ⟨r, drawn⟩ := Random.Generator.below_eq positive g
  rw [drawn]
  exact .ok r

end Draw.BreaksWith

/-- A loop that goes on for as many rounds as there is patience ends as it does after its first
round, or is tired, as it is without a round. -/
theorem ends_of_succ {γ : Type*} (loop : ℕ → ℕ → γ) (tired : γ → Prop)
    (spent : ∀ n, tired (loop 0 n)) {rounds : ℕ → ℕ} (grows : Tendsto rounds atTop atTop) {x : γ}
    (only : ∀ n, loop (rounds n - 1 + 1) n = x ∨ tired (loop (rounds n - 1 + 1) n))
    (stays : ∀ᶠ n in atTop, loop (rounds n - 1 + 1) n = x) :
    (∀ n, loop (rounds n) n = x ∨ tired (loop (rounds n) n)) ∧
      ∀ᶠ n in atTop, loop (rounds n) n = x := by
  have same {n : ℕ} (some : 1 ≤ rounds n) : rounds n - 1 + 1 = rounds n := Nat.sub_add_cancel some
  constructor
  · intro n
    rcases Nat.eq_zero_or_pos (rounds n) with none | some
    · exact .inr (none ▸ spent n)
    · exact same some ▸ only n
  · exact ((grows.eventually_ge_atTop 1).and stays).mono fun n h => same h.1 ▸ h.2

namespace Draw

/-- With enough patience the draw from this world comes to one end, and with less of it to none
other. It breaks off with nothing but the given faults then. -/
def SettlesAt (faults : Fault → Prop) (f : ℕ → Draw M α) (w : World M) : Prop :=
  ∃ x, Breaks faults x ∧ (∀ patience, f patience w = x ∨ f patience w = .error .exhausted) ∧
    ∀ᶠ patience in atTop, f patience w = x

/-- The draw settles from every world. -/
def Settles (faults : Fault → Prop) (f : ℕ → Draw M α) : Prop := ∀ w, SettlesAt faults f w

/-- The draw can have this value. -/
def Yields (f : ℕ → Draw M α) (a : α) : Prop :=
  ∃ patience w w', f patience w = .ok (a, w')

namespace SettlesAt

variable {f : ℕ → Draw M α} {k : ℕ → α → Draw M β} {w : World M}

/-- What follows needs to settle after what the first draw leads to. -/
theorem bind (first : SettlesAt faults f w)
    (rest : ∀ n a w', f n w = .ok (a, w') → SettlesAt faults (fun n => k n a) w') :
    SettlesAt faults (fun n => f n >>= k n) w := by
  obtain ⟨x, breaks, only, stays⟩ := first
  have tired {n : ℕ} (short : f n w = .error .exhausted) : (f n >>= k n) w = .error .exhausted := by
    rw [draw_bind, short]
  cases x with
  | error e =>
    have ended {n : ℕ} (reached : f n w = .error e) : (f n >>= k n) w = .error e := by
      rw [draw_bind, reached]
    exact ⟨.error e, .error (breaks e rfl), fun n => (only n).imp ended tired,
      stays.mono fun n => ended⟩
  | ok r =>
    obtain ⟨n, reached⟩ := stays.exists
    obtain ⟨y, breaks, only', stays'⟩ := rest n r.1 r.2 reached
    refine ⟨y, breaks, fun n => ?_, (stays.and stays').mono fun n h => ?_⟩
    · rcases only n with reached | short
      · exact (only' n).imp (draw_bind_eq reached).trans (draw_bind_eq reached).trans
      · exact .inr (tired short)
    · exact (draw_bind_eq h.1).trans h.2

/-- What some patience leads to, any other leads to as well unless it is too little. -/
theorem eq_or_exhausted (settles : SettlesAt faults f w) {n : ℕ} {r : α × World M}
    (reached : f n w = .ok r) (m : ℕ) : f m w = .ok r ∨ f m w = .error .exhausted := by
  obtain ⟨x, -, only, -⟩ := settles
  rcases only n with known | short
  · rw [← reached, known]
    exact only m
  · rw [reached] at short
    cases short

/-- A loop that goes on for as many rounds as there is patience begins its first one. -/
theorem of_succ (loop : ℕ → ℕ → Draw M α) (spent : ∀ n, loop 0 n = Draw.fail .exhausted)
    {rounds : ℕ → ℕ} (grows : Tendsto rounds atTop atTop)
    (settles : ∀ rest : ℕ → ℕ, Tendsto rest atTop atTop →
      SettlesAt faults (fun n => loop (rest n + 1) n) w) :
    SettlesAt faults (fun n => loop (rounds n) n) w := by
  obtain ⟨x, breaks, only, stays⟩ := settles (fun n => rounds n - 1)
    ((tendsto_sub_atTop_nat 1).comp grows)
  exact ⟨x, breaks, ends_of_succ (fun m n => loop m n w) (· = .error .exhausted)
    (fun n => congrFun (spent n) w) grows only stays⟩

end SettlesAt

namespace Settles

variable {f : ℕ → Draw M α} {k : ℕ → α → Draw M β}

/-- Draws without loops settle if they break off with nothing else. -/
theorem of_breaks {g : Draw M α} (breaks : g.BreaksWith faults) : Settles faults fun _ => g :=
  fun w => ⟨g w, breaks w, fun _ => .inl rfl, .of_forall fun _ => rfl⟩

theorem pure (a : α) : Settles faults fun _ => (Pure.pure a : Draw M α) := of_breaks (.pure a)

theorem lift {x : Except Fault α} (breaks : Breaks faults x) :
    Settles faults fun _ => (Draw.lift x : Draw M α) := of_breaks (.lift breaks)

theorem generate {g : Random.Generator → Except Fault (α × Random.Generator)}
    (breaks : ∀ r, Breaks faults (g r)) :
    Settles faults fun _ => (Draw.generate g : Draw M α) := of_breaks (.generate breaks)

theorem below {bound : ℕ} (positive : bound ≠ 0) :
    Settles faults fun _ => (Draw.below bound : Draw M ℕ) := of_breaks (.below positive)

/-- What follows needs to settle for those values only that the first draw can have. -/
theorem bind (first : Settles faults f) (rest : ∀ a, Yields f a → Settles faults fun n => k n a) :
    Settles faults fun n => f n >>= k n :=
  fun w => (first w).bind fun n a w' reached => rest a ⟨n, w, w', reached⟩ w'

/-- A loop that goes on for as many rounds as there is patience begins its first one. -/
theorem of_succ (loop : ℕ → ℕ → Draw M α) (spent : ∀ n, loop 0 n = Draw.fail .exhausted)
    {rounds : ℕ → ℕ} (grows : Tendsto rounds atTop atTop)
    (settles : ∀ rest : ℕ → ℕ, Tendsto rest atTop atTop →
      Settles faults fun n => loop (rest n + 1) n) :
    Settles faults fun n => loop (rounds n) n :=
  fun w => .of_succ loop spent grows fun rest grows => settles rest grows w

end Settles

namespace Yields

variable {f : ℕ → Draw M α} {k : ℕ → α → Draw M β} {a : α} {b : β}

theorem of_pure {a b : α} (yields : Yields (fun _ => (pure a : Draw M α)) b) : b = a := by
  obtain ⟨_, _, _, ⟨⟩⟩ := yields
  rfl

theorem of_lift {x : Except Fault α} (yields : Yields (fun _ => (Draw.lift x : Draw M α)) a) :
    x = .ok a := by
  obtain ⟨_, _, _, ran⟩ := yields
  cases x with
  | error e => cases ran
  | ok a =>
    cases ran
    rfl

theorem of_bind (yields : Yields (fun n => f n >>= k n) b) :
    ∃ a, Yields f a ∧ Yields (fun n => k n a) b := by
  obtain ⟨n, w, w', ran⟩ := yields
  obtain ⟨a, v, first, rest⟩ := exists_of_draw_bind (f := f n) ran
  exact ⟨a, ⟨n, w, v, first⟩, n, v, w', rest⟩

end Yields

end Draw

end PlanSearch
