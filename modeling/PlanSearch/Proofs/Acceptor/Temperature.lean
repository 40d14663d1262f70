import Mathlib.Analysis.SpecialFunctions.Exp
import PlanSearch.Acceptor.Annealing
import PlanSearch.Proofs.Termination.Gradient

/-!
# Temperatures

The further a search has come, the lower are the temperatures of annealing, and the lower is the
chance of a move that makes things worse by a given amount. A search computes temperatures and
chances in floating-point numbers; what they stand for are fractions and real numbers.
-/

namespace PlanSearch

variable {sh : Shape}

namespace Annealing

variable {α : Type} [Scale α] [OfScientific α]

/-- What is left of a temperature that is given as a score, level by level, in the numbers of a
scale. -/
def temperaturesAt (gradient : α) (temperature : Score sh) : List α :=
  (temperature.toList.map Scale.ofLevel).map (cooled gradient)

theorem temperatures_stepStarted {temperature : Score sh} {a : Annealing sh}
    (made : ofTemperature temperature = .ok a) (gradient : Float) :
    (a.stepStarted gradient).temperatures = temperaturesAt gradient temperature := by
  obtain ⟨-, -, starting, -⟩ := ofTemperature_eq_ok.1 made
  rw [stepStarted, starting]
  rfl

theorem minimum_pos : 0 < (minimum : ℚ) := by decide +kernel

theorem clamped_eq (x : ℚ) : clamped x = max 0 (min x 1) := by
  have zero : (0.0 : ℚ) = 0 := by norm_num
  have one : (1.0 : ℚ) = 1 := by norm_num
  have unfolded : clamped x = if x < 0.0 then 0.0 else if 1.0 < x then 1.0 else x := rfl
  rw [unfolded, zero, one]
  split
  · rename_i negative
    exact (max_eq_left (min_le_of_left_le negative.le)).symm
  · rename_i nonneg
    have nonneg := not_lt.1 nonneg
    split
    · rename_i beyond
      rw [min_eq_right beyond.le, max_eq_right zero_le_one]
    · rename_i within
      rw [min_eq_left (not_lt.1 within), max_eq_right nonneg]

theorem cooled_eq (gradient starting : ℚ) :
    cooled gradient starting = max minimum (starting * (1 - max 0 (min gradient 1))) := by
  have one : (1.0 : ℚ) = 1 := by norm_num
  have unfolded : cooled gradient starting =
      if minimum < starting * (1.0 - clamped gradient) then starting * (1.0 - clamped gradient)
      else minimum := rfl
  rw [unfolded, one, clamped_eq]
  split
  · rename_i warm
    exact (max_eq_right warm.le).symm
  · rename_i cold
    exact (max_eq_left (not_lt.1 cold)).symm

theorem cooled_pos (gradient starting : ℚ) : 0 < cooled gradient starting := by
  rw [cooled_eq]
  exact lt_max_of_lt_left minimum_pos

/-- The further a search has come, the less is left of a temperature. -/
theorem cooled_anti {gradient gradient' starting : ℚ} (further : gradient ≤ gradient')
    (positive : 0 ≤ starting) : cooled gradient' starting ≤ cooled gradient starting := by
  rw [cooled_eq, cooled_eq]
  have left : 1 - max 0 (min gradient' 1) ≤ 1 - max 0 (min gradient 1) :=
    sub_le_sub_left (max_le_max_left 0 (min_le_min_right 1 further)) 1
  exact max_le_max_left minimum (mul_le_mul_of_nonneg_left left positive)

theorem temperaturesAt_pos {gradient t : ℚ} {temperature : Score sh}
    (member : t ∈ temperaturesAt gradient temperature) : 0 < t := by
  obtain ⟨level, -, rfl⟩ := List.mem_map.1 member
  exact cooled_pos gradient level

/-- The further a search has come, the less is left of the temperature on every level. -/
theorem temperaturesAt_anti {temperature : Score sh} {a : Annealing sh}
    (made : ofTemperature temperature = .ok a) {gradient gradient' : ℚ}
    (further : gradient ≤ gradient') :
    List.Forall₂ (· ≤ ·) (temperaturesAt gradient' temperature)
      (temperaturesAt gradient temperature) := by
  rw [temperaturesAt, temperaturesAt, List.forall₂_map_left_iff, List.forall₂_map_right_iff,
    List.forall₂_same]
  intro x member
  obtain ⟨level, there, rfl⟩ := List.mem_map.1 member
  have nonneg := (ofTemperature_eq_ok.1 made).1 level there
  exact cooled_anti further (Int.cast_nonneg (Int64.le_iff_toInt_le.1 nonneg))

end Annealing

noncomputable instance : Scale ℝ where
  decLt := inferInstance
  decLe := inferInstance
  ofLevel x := x.toInt
  ofCount n := n

namespace Annealing

/-- What one level leaves of a chance. -/
noncomputable def survival (worsening : Int64) (temperature : ℝ) : ℝ :=
  if 0 < worsening then Real.exp (-Scale.ofLevel worsening / temperature) else 1

theorem survival_nonneg (worsening : Int64) (temperature : ℝ) : 0 ≤ survival worsening temperature := by
  unfold survival
  split
  · exact (Real.exp_pos _).le
  · exact zero_le_one

/-- A level leaves less of a chance where it is colder. -/
theorem survival_mono (worsening : Int64) {colder warmer : ℝ} (positive : 0 < colder)
    (cold : colder ≤ warmer) : survival worsening colder ≤ survival worsening warmer := by
  unfold survival
  split
  · rename_i worse
    have worse : (0 : ℝ) ≤ Scale.ofLevel worsening := Int.cast_nonneg (Int64.lt_iff_toInt_lt.1 worse).le
    have deeper : Scale.ofLevel worsening / warmer ≤ Scale.ofLevel worsening / colder :=
      div_le_div_of_nonneg_left worse positive cold
    refine Real.exp_le_exp.2 ?_
    rw [neg_div, neg_div]
    exact neg_le_neg deeper
  · exact le_rfl

/-- The levels leave their shares of a chance one after the other. -/
theorem chanceOf_eq (worsening : List Int64) (temperatures : List ℝ) :
    chanceOf Real.exp worsening temperatures =
      ((worsening.zip temperatures).map (Function.uncurry survival)).prod := by
  have one : (1.0 : ℝ) = 1 := by norm_num
  rw [chanceOf, one, ← one_mul (List.prod _)]
  generalize (1 : ℝ) = chance
  induction worsening generalizing temperatures chance with
  | nil => exact (mul_one chance).symm
  | cons delta worsening ih =>
    cases temperatures with
    | nil => exact (mul_one chance).symm
    | cons temperature temperatures =>
      rw [List.zip_cons_cons, List.foldl_cons, List.map_cons, List.prod_cons, ← mul_assoc, ih,
        Function.uncurry_apply_pair, survival]
      dsimp only
      split
      · rfl
      · rw [mul_one]

/-- At lower temperatures a worsening has less of a chance. -/
theorem chanceOf_mono (worsening : List Int64) {colder warmer : List ℚ}
    (cold : List.Forall₂ (· ≤ ·) colder warmer) (positive : ∀ t ∈ colder, 0 < t) :
    chanceOf Real.exp worsening (colder.map (↑)) ≤ chanceOf Real.exp worsening (warmer.map (↑)) := by
  rw [chanceOf_eq, chanceOf_eq]
  induction cold generalizing worsening with
  | nil => exact le_rfl
  | cons first _ ih =>
    obtain ⟨positive, others⟩ := List.forall_mem_cons.1 positive
    cases worsening with
    | nil => exact le_rfl
    | cons delta worsening =>
      rw [List.map_cons, List.map_cons, List.zip_cons_cons, List.zip_cons_cons, List.map_cons,
        List.map_cons, List.prod_cons, List.prod_cons]
      have own := survival_mono delta (Rat.cast_pos.2 positive) (Rat.cast_le.2 first)
      refine mul_le_mul own (ih worsening others) ?_ (survival_nonneg ..)
      exact List.prod_nonneg (List.forall_mem_map.2 fun pair _ => survival_nonneg pair.1 pair.2)

end Annealing

end PlanSearch
