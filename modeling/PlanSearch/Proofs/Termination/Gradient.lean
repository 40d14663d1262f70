import Mathlib.Algebra.Order.Field.Rat
import Mathlib.Algebra.Order.Group.MinMax
import Mathlib.Data.List.Forall2
import Mathlib.Tactic.Linarith
import Mathlib.Tactic.Positivity
import Mathlib.Tactic.GCongr
import PlanSearch.Proofs.Score.Order
import PlanSearch.Termination.Basic

/-!
# Gradients that do not fall

In exact numbers the gradient of a termination does not fall while steps are counted, time passes and
the best score gets better, with one exception. A better score may be worse on levels of lesser
importance; where these lose more, by the weights of the levels, than the others gain, the share of
the way to a target falls.
-/

namespace PlanSearch

variable {sh : Shape}

/-! ## Shares of a way -/

namespace Gradient

/-- The exact number of a level. -/
def exact (x : Int64) : ℚ := Scale.ofLevel x

theorem exact_lt {x y : Int64} : exact x < exact y ↔ x < y := by
  rw [Int64.lt_iff_toInt_lt]
  exact Int.cast_lt

theorem exact_le {x y : Int64} : exact x ≤ exact y ↔ x ≤ y := by
  rw [Int64.le_iff_toInt_le]
  exact Int.cast_le

theorem unsupported_lt : (unsupported : ℚ) < 0 := by decide +kernel

theorem least_eq (a b : ℚ) : least a b = min a b := by
  rw [least, min_def]
  split
  · rename_i lower
    exact (if_pos (le_of_lt lower)).symm
  · rename_i above
    split
    · rename_i below
      exact le_antisymm (not_lt.1 above) below
    · rfl

theorem capped_eq (a : ℚ) : capped a = min a 1 := least_eq a 1

/-- The part of the weight that a level takes. -/
def width (weight : ℚ) (last : Bool) : ℚ := if last then weight else weight * (3 / 4)

theorem width_nonneg {weight : ℚ} (positive : 0 ≤ weight) (last : Bool) : 0 ≤ width weight last := by
  unfold width
  split
  · exact positive
  · positivity

theorem width_le {weight : ℚ} (positive : 0 ≤ weight) (last : Bool) : width weight last ≤ weight := by
  unfold width
  split
  · exact le_rfl
  · linarith

/-- A level adds its share to what is done, and leaves the rest of the weight to the others. -/
theorem along_cons (done weight start target level : ℚ) (rest : List (ℚ × ℚ × ℚ)) :
    along done weight ((start, target, level) :: rest) =
      if target < level then done + weight
      else if level < target then
        if level < start then done
        else along (done + width weight rest.isEmpty * (level - start) / (target - start))
          (weight - width weight rest.isEmpty) rest
      else along (done + width weight rest.isEmpty) (weight - width weight rest.isEmpty) rest := by
  have unfolded : along done weight ((start, target, level) :: rest) =
      if target < level then
        done + (width weight rest.isEmpty + (weight - width weight rest.isEmpty))
      else if level < target then
        if level < start then done
        else along (done + width weight rest.isEmpty * (level - start) / (target - start))
          (weight - width weight rest.isEmpty) rest
      else along (done + width weight rest.isEmpty) (weight - width weight rest.isEmpty) rest := rfl
  rw [unfolded, add_sub_cancel]

/-- What is done on a level that is not beyond its target: a part of its weight as long as it is on
its way. -/
def part (width start target level : ℚ) : ℚ :=
  if level < target then width * (level - start) / (target - start) else width

section

variable {done weight width start target level level' : ℚ} {rest : List (ℚ × ℚ × ℚ)}

theorem part_nonneg (positive : 0 ≤ width) (above : level < target → start ≤ level) :
    0 ≤ part width start target level := by
  unfold part
  split
  · rename_i below
    have way : 0 < target - start := by linarith [above below]
    have done : 0 ≤ level - start := by linarith [above below]
    positivity
  · exact positive

theorem part_le (positive : 0 ≤ width) (above : level < target → start ≤ level) :
    part width start target level ≤ width := by
  unfold part
  split
  · rename_i below
    have way : 0 < target - start := by linarith [above below]
    rw [div_le_iff₀ way]
    exact mul_le_mul_of_nonneg_left (by linarith) positive
  · exact le_rfl

theorem part_mono (positive : 0 ≤ width) (above : level < target → start ≤ level)
    (better : level ≤ level') : part width start target level ≤ part width start target level' := by
  by_cases below' : level' < target
  · have below := better.trans_lt below'
    have way : 0 < target - start := by linarith [above below]
    rw [part, part, if_pos below, if_pos below', div_le_div_iff_of_pos_right way]
    exact mul_le_mul_of_nonneg_left (by linarith) positive
  · have all : part width start target level' = width := if_neg below'
    rw [all]
    exact part_le positive above

/-- A level is beyond its target, or it is short of its start, or it is somewhere on its way. -/
theorem beyond_or_short_or_within (start target level : ℚ) : target < level ∨
    (level < target ∧ level < start) ∨ (level ≤ target ∧ (level < target → start ≤ level)) := by
  by_cases beyond : target < level
  · exact .inl beyond
  by_cases short : level < target ∧ level < start
  · exact .inr (.inl short)
  · exact .inr (.inr ⟨not_lt.1 beyond, fun below => not_lt.1 fun under => short ⟨below, under⟩⟩)

theorem along_of_beyond (beyond : target < level) :
    along done weight ((start, target, level) :: rest) = done + weight := by
  rw [along_cons, if_pos beyond]

theorem along_of_short (below : level < target) (short : level < start) :
    along done weight ((start, target, level) :: rest) = done := by
  rw [along_cons, if_neg (lt_asymm below), if_pos below, if_pos short]

theorem along_of_within (within : level ≤ target) (above : level < target → start ≤ level) :
    along done weight ((start, target, level) :: rest) =
      along (done + part (Gradient.width weight rest.isEmpty) start target level)
        (weight - Gradient.width weight rest.isEmpty) rest := by
  rw [along_cons, if_neg (not_lt.2 within), part]
  split
  · rename_i below
    rw [if_neg (not_lt.2 (above below))]
  · rfl

end

/-- What is done stays done. -/
theorem le_along (levels : List (ℚ × ℚ × ℚ)) {done weight : ℚ} (positive : 0 ≤ weight) :
    done ≤ along done weight levels := by
  induction levels generalizing done weight with
  | nil => exact le_rfl
  | cons level rest ih =>
    obtain ⟨start, target, level⟩ := level
    rcases beyond_or_short_or_within start target level with beyond | ⟨below, short⟩ | ⟨within, above⟩
    · rw [along_of_beyond beyond]
      exact le_add_of_nonneg_right positive
    · rw [along_of_short below short]
    · rw [along_of_within within above]
      have part := part_nonneg (width_nonneg positive rest.isEmpty) above
      exact (le_add_of_nonneg_right part).trans (ih (sub_nonneg.2 (width_le positive _)))

/-- No more is done than the weight that is left. -/
theorem along_le (levels : List (ℚ × ℚ × ℚ)) {done weight : ℚ} (positive : 0 ≤ weight) :
    along done weight levels ≤ done + weight := by
  induction levels generalizing done weight with
  | nil => exact le_add_of_nonneg_right positive
  | cons level rest ih =>
    obtain ⟨start, target, level⟩ := level
    rcases beyond_or_short_or_within start target level with beyond | ⟨below, short⟩ | ⟨within, above⟩
    · rw [along_of_beyond beyond]
    · rw [along_of_short below short]
      exact le_add_of_nonneg_right positive
    · rw [along_of_within within above]
      have part := part_le (width_nonneg positive rest.isEmpty) above
      refine (ih (sub_nonneg.2 (width_le positive _))).trans ?_
      linarith

/-! ## Losses and gains -/

/-- What the levels add to a share, one by one. A level beyond its target has all of the weight that
is left, one that is short of its start has nothing, and after either of them there is nothing. -/
def portions : ℚ → List (ℚ × ℚ × ℚ) → List ℚ
  | _, [] => []
  | weight, (start, target, level) :: rest =>
    if target < level then weight :: rest.map fun _ => 0
    else if level < target ∧ level < start then 0 :: rest.map fun _ => 0
    else
      let own := width weight rest.isEmpty
      part own start target level :: portions (weight - own) rest

theorem length_portions (weight : ℚ) (levels : List (ℚ × ℚ × ℚ)) :
    (portions weight levels).length = levels.length := by
  induction levels generalizing weight with
  | nil => rfl
  | cons level rest ih =>
    rw [portions]
    split
    · simp
    split
    · simp
    · simp [ih]

/-- A share is what all levels add to it. -/
theorem along_eq_sum (levels : List (ℚ × ℚ × ℚ)) (done weight : ℚ) :
    along done weight levels = done + (portions weight levels).sum := by
  induction levels generalizing done weight with
  | nil => exact (add_zero done).symm
  | cons level rest ih =>
    obtain ⟨start, target, level⟩ := level
    rw [portions]
    rcases beyond_or_short_or_within start target level with beyond | ⟨below, short⟩ | ⟨within, above⟩
    · rw [along_of_beyond beyond, if_pos beyond]
      simp
    · rw [along_of_short below short, if_neg (lt_asymm below), if_pos ⟨below, short⟩]
      simp
    · have kept : ¬(level < target ∧ level < start) := fun both => not_lt.2 (above both.1) both.2
      rw [along_of_within within above, if_neg (not_lt.2 within), if_neg kept, ih, List.sum_cons,
        add_assoc]

/-- What the entries of one list exceed those of another one by, all together. -/
def excess (as bs : List ℚ) : ℚ := (List.zipWith (fun a b => max (a - b) 0) as bs).sum

/-- Losses and gains are what makes two sums differ. -/
theorem excess_sub_excess {as bs : List ℚ} (same : as.length = bs.length) :
    excess as bs - excess bs as = as.sum - bs.sum := by
  induction as generalizing bs with
  | nil =>
    obtain rfl := List.length_eq_zero_iff.1 same.symm
    rfl
  | cons a as ih =>
    obtain ⟨b, bs, rfl⟩ := List.exists_cons_of_length_eq_add_one same.symm
    have rest := ih (Nat.succ.inj same)
    have here := max_zero_sub_max_neg_zero_eq_self (a - b)
    rw [neg_sub] at here
    rw [excess, excess] at rest ⊢
    simp only [List.zipWith_cons_cons, List.sum_cons]
    linarith

end Gradient

/-! ## Scores on their way to a target -/

namespace Gradient

/-- The levels of a score on its way, in exact numbers. -/
def way (starts targets levels : List Int64) : List (ℚ × ℚ × ℚ) :=
  (starts.map exact).zip ((targets.map exact).zip (levels.map exact))

/-- What the levels of a score add to its share of the way from a start to a target. -/
def portionsOf (start target score : Score sh) : List ℚ :=
  portions 1 (way start.toList target.toList score.toList)

/-- How far a score has come in exact numbers. -/
theorem ofScore_eq (start target score : Score sh) :
    (ofScore start target score : ℚ) =
      min (along 0 1 (way start.toList target.toList score.toList)) 1 := capped_eq _

theorem ofScore_eq_sum (start target score : Score sh) :
    (ofScore start target score : ℚ) = (portionsOf start target score).sum := by
  have most : along 0 1 (way start.toList target.toList score.toList) ≤ 0 + 1 :=
    along_le _ zero_le_one
  rw [zero_add] at most
  rw [ofScore_eq, min_eq_left most, along_eq_sum, zero_add, portionsOf]

theorem ofScore_nonneg (start target score : Score sh) : 0 ≤ (ofScore start target score : ℚ) := by
  rw [ofScore_eq]
  exact le_min (le_along _ zero_le_one) zero_le_one

end Gradient

/-- On the way from a start to a target, a score upholds an earlier one: by the weights of the levels,
those that are worse than before lose no more than the others gain. -/
def Score.Upholds (start target before after : Score sh) : Prop :=
  Gradient.excess (Gradient.portionsOf start target before) (Gradient.portionsOf start target after) ≤
    Gradient.excess (Gradient.portionsOf start target after) (Gradient.portionsOf start target before)

/-- A score upholds an earlier one exactly if it has come at least as far. -/
theorem Score.upholds_iff {start target before after : Score sh} :
    start.Upholds target before after ↔
      (Gradient.ofScore start target before : ℚ) ≤ Gradient.ofScore start target after := by
  have same : (Gradient.portionsOf start target before).length =
      (Gradient.portionsOf start target after).length := by
    simp [Gradient.portionsOf, Gradient.length_portions, Gradient.way]
  rw [Gradient.ofScore_eq_sum, Gradient.ofScore_eq_sum, Score.Upholds, ← sub_nonpos,
    Gradient.excess_sub_excess same, sub_nonpos]

/-! ### Levels of which none is given up -/

/-- On the way from a start to a target, one list of levels upholds another one: no level is lower
than it was before, down to one that is beyond the target now, or that was short of the start and so
did not count before, and neither did those after it. -/
def UpholdsLevels : List Int64 → List Int64 → List Int64 → List Int64 → Prop
  | start :: starts, target :: targets, before :: befores, after :: afters =>
    target < after ∨ (before < target ∧ before < start) ∨
      (before ≤ after ∧ UpholdsLevels starts targets befores afters)
  | _, _, _, _ => True

instance decidableUpholdsLevels : (starts targets befores afters : List Int64) →
    Decidable (UpholdsLevels starts targets befores afters)
  | start :: starts, target :: targets, before :: befores, after :: afters =>
    have := decidableUpholdsLevels starts targets befores afters
    inferInstanceAs (Decidable (target < after ∨ (before < target ∧ before < start) ∨
      (before ≤ after ∧ UpholdsLevels starts targets befores afters)))
  | [], _, _, _ | _ :: _, [], _, _ | _ :: _, _ :: _, [], _ | _ :: _, _ :: _, _ :: _, [] =>
    inferInstanceAs (Decidable True)

namespace Gradient

theorem isEmpty_way {starts targets befores afters : List Int64}
    (same : befores.length = afters.length) :
    (way starts targets befores).isEmpty = (way starts targets afters).isEmpty := by
  have length : (way starts targets befores).length = (way starts targets afters).length := by
    simp [way, same]
  rw [Bool.eq_iff_iff, List.isEmpty_iff_length_eq_zero, List.isEmpty_iff_length_eq_zero, length]

/-- A list of levels that upholds another one has come at least as far. -/
theorem along_mono {starts targets befores afters : List Int64}
    (same : befores.length = afters.length)
    (upholds : UpholdsLevels starts targets befores afters) {done done' weight : ℚ}
    (positive : 0 ≤ weight) (further : done ≤ done') :
    along done weight (way starts targets befores) ≤
      along done' weight (way starts targets afters) := by
  induction starts generalizing targets befores afters done done' weight with
  | nil => exact further
  | cons start starts ih =>
    cases targets with
    | nil => exact further
    | cons target targets =>
      cases befores with
      | nil =>
        cases afters with
        | nil => exact further
        | cons _ _ => cases same
      | cons before befores =>
        cases afters with
        | nil => cases same
        | cons after afters =>
          have same : befores.length = afters.length := Nat.succ.inj same
          have empty : (way starts targets befores).isEmpty = (way starts targets afters).isEmpty :=
            isEmpty_way same
          have own := width_nonneg positive (way starts targets befores).isEmpty
          have left := sub_nonneg.2 (width_le positive (way starts targets befores).isEmpty)
          have cons (level : Int64) (levels : List Int64) :
              way (start :: starts) (target :: targets) (level :: levels) =
                (exact start, exact target, exact level) :: way starts targets levels := rfl
          rw [cons, cons]
          obtain beyond | ⟨below, short⟩ | ⟨higher, others⟩ := upholds
          · rw [along_of_beyond (exact_lt.2 beyond)]
            exact (along_le _ positive).trans (add_le_add further le_rfl)
          · rw [along_of_short (exact_lt.2 below) (exact_lt.2 short)]
            exact further.trans (le_along _ positive)
          have higher := exact_le.2 higher
          rcases beyond_or_short_or_within (exact start) (exact target) (exact after) with
            beyond | ⟨below, short⟩ | ⟨within, -⟩
          · rw [along_of_beyond beyond]
            exact (along_le _ positive).trans (add_le_add further le_rfl)
          · rw [along_of_short (higher.trans_lt below) (higher.trans_lt short)]
            exact further.trans (le_along _ positive)
          rcases beyond_or_short_or_within (exact start) (exact target) (exact before) with
            beyond | ⟨below, short⟩ | ⟨within', above⟩
          · exact absurd (beyond.trans_le higher) (not_lt.2 within)
          · rw [along_of_short below short]
            exact further.trans (le_along _ positive)
          · have above' (below : exact after < exact target) : exact start ≤ exact after :=
              (above (higher.trans_lt below)).trans higher
            rw [along_of_within within' above, along_of_within within above', ← empty]
            exact ih same others left (add_le_add further (part_mono own above higher))

/-- A score whose levels uphold those of an earlier one upholds it: nothing is lost. -/
theorem upholds_of_levels {start target before after : Score sh}
    (upholds : UpholdsLevels start.toList target.toList before.toList after.toList) :
    start.Upholds target before after := by
  rw [Score.upholds_iff, ofScore_eq, ofScore_eq]
  refine min_le_min_right 1 (along_mono ?_ upholds zero_le_one le_rfl)
  rw [before.length_toList, after.length_toList]

/-- Three hard points outweigh the two soft ones that are lost. -/
example : ¬UpholdsLevels [-10, -20] [0, 0] [-8, -10] [-5, -12] ∧
    (Score.ofHardSoft (-10) (-20)).Upholds .zero (.ofHardSoft (-8) (-10)) (.ofHardSoft (-5) (-12)) :=
  ⟨by decide, Score.upholds_iff.2 (by decide +kernel)⟩

/-- A better score of a single level upholds a worse one. -/
theorem upholds_of_le (single : sh.levelCount ≤ 1) (start target : Score sh) {before after : Score sh}
    (better : before ≤ after) : start.Upholds target before after := by
  have better : (List.compareLex compare before.toList after.toList).isLE = true := by
    rw [← Score.compare_eq]
    exact better
  have short : before.toList.length ≤ 1 := before.length_toList.trans_le single
  refine upholds_of_levels ?_
  generalize before.toList = befores at better short ⊢
  generalize after.toList = afters at better ⊢
  cases start.toList with
  | nil => exact trivial
  | cons start starts =>
    cases target.toList with
    | nil => exact trivial
    | cons target targets =>
      cases befores with
      | nil => exact trivial
      | cons before befores =>
        cases afters with
        | nil => exact trivial
        | cons after afters =>
          obtain rfl : befores = [] :=
            List.length_eq_zero_iff.1 (Nat.le_zero.1 (Nat.le_of_succ_le_succ short))
          rw [List.compareLex_cons_cons, Ordering.isLE_then_iff_and] at better
          refine .inr (.inr ⟨Std.isLE_compare.1 better.1, ?_⟩)
          cases starts <;> cases targets <;> exact trivial

theorem ofSteps_nonneg (steps limit : ℕ) : 0 ≤ (ofSteps steps limit : ℚ) := by
  unfold ofSteps
  split
  · exact zero_le_one
  · rw [capped_eq]
    exact le_min (div_nonneg (Nat.cast_nonneg steps) (Nat.cast_nonneg limit)) zero_le_one

theorem ofSteps_mono {steps steps' : ℕ} (more : steps ≤ steps') (limit : ℕ) :
    (ofSteps steps limit : ℚ) ≤ ofSteps steps' limit := by
  unfold ofSteps
  split
  · exact le_rfl
  · rw [capped_eq, capped_eq]
    refine min_le_min_right 1 (div_le_div_of_nonneg_right ?_ (Nat.cast_nonneg limit))
    exact Nat.cast_le.2 more

/-- A duration in seconds is what it is in nanoseconds. -/
theorem seconds_eq (nanoseconds : ℕ) : (seconds nanoseconds : ℚ) = nanoseconds / 1000000000 := by
  have split : (nanoseconds : ℚ) =
      1000000000 * (nanoseconds / 1000000000 : ℕ) + (nanoseconds % 1000000000 : ℕ) := by
    exact_mod_cast (Nat.div_add_mod nanoseconds 1000000000).symm
  have unfolded : (seconds nanoseconds : ℚ) =
      (nanoseconds / 1000000000 : ℕ) + ((nanoseconds % 1000000000 : ℕ) : ℚ) / (1000000000 : ℕ) := rfl
  rw [unfolded]
  generalize nanoseconds / 1000000000 = whole at split ⊢
  generalize nanoseconds % 1000000000 = part at split ⊢
  rw [split, add_div, mul_div_cancel_left₀ _ (by norm_num)]
  norm_num

theorem ofTime_nonneg (elapsed limit : ℕ) : 0 ≤ (ofTime elapsed limit : ℚ) := by
  unfold ofTime
  split
  · exact zero_le_one
  · rw [capped_eq, seconds_eq, seconds_eq]
    exact le_min (by positivity) zero_le_one

theorem ofTime_mono {elapsed elapsed' : ℕ} (later : elapsed ≤ elapsed') (limit : ℕ) :
    (ofTime elapsed limit : ℚ) ≤ ofTime elapsed' limit := by
  unfold ofTime
  split
  · exact le_rfl
  · rw [capped_eq, capped_eq, seconds_eq, seconds_eq, seconds_eq]
    have more : (elapsed : ℚ) ≤ elapsed' := Nat.cast_le.2 later
    refine min_le_min_right 1 (div_le_div_of_nonneg_right ?_ (by positivity))
    exact div_le_div_of_nonneg_right more (by positivity)

/-! ## The least share -/

theorem foldl_least (rest : List ℚ) (g : ℚ) : rest.foldl least g = rest.foldl min g := by
  induction rest generalizing g with
  | nil => rfl
  | cons a rest ih => rw [List.foldl_cons, List.foldl_cons, least_eq, ih]

theorem foldl_min_nonneg {rest : List ℚ} {g : ℚ} (first : 0 ≤ g) (others : ∀ a ∈ rest, 0 ≤ a) :
    0 ≤ rest.foldl min g := by
  induction rest generalizing g with
  | nil => exact first
  | cons a rest ih =>
    obtain ⟨second, others⟩ := List.forall_mem_cons.1 others
    exact ih (le_min first second) others

theorem foldl_min_mono {rest rest' : List ℚ} (others : List.Forall₂ (· ≤ ·) rest rest') {g g' : ℚ}
    (first : g ≤ g') : rest.foldl min g ≤ rest'.foldl min g' := by
  induction others generalizing g g' with
  | nil => exact first
  | cons second _ ih => exact ih (min_le_min first second)

/-- Two shares of which both or neither can be told, and the second one is at least the first. -/
def Rises (a b : ℚ) : Prop := a ≤ b ∧ (0 ≤ a ↔ 0 ≤ b)

/-- A share that can be told. -/
def isTold (g : ℚ) : Bool := decide (0 ≤ g)

theorem filter_isTold (l : List ℚ) :
    (l.filter fun g => decide (Scale.ofCount 0 ≤ g)) = l.filter isTold := rfl

theorem forall₂_filter_of_rises {l l' : List ℚ} (rise : List.Forall₂ Rises l l') :
    List.Forall₂ (· ≤ ·) (l.filter isTold) (l'.filter isTold) := by
  induction rise with
  | nil => exact .nil
  | @cons a b _ _ first _ ih =>
    have both : isTold a = isTold b := decide_eq_decide.2 first.2
    rw [List.filter_cons, List.filter_cons, both]
    split
    · exact .cons first.1 ih
    · exact ih

theorem minimum_nonneg_iff (l : List ℚ) : 0 ≤ minimum l ↔ ∃ g ∈ l, 0 ≤ g := by
  have told (g : ℚ) : g ∈ l.filter isTold ↔ g ∈ l ∧ 0 ≤ g := by
    rw [List.mem_filter, isTold, decide_eq_true_iff]
  rw [minimum, filter_isTold]
  generalize l.filter isTold = shares at told
  cases shares with
  | nil =>
    refine ⟨fun supported => absurd supported (not_le.2 unsupported_lt), ?_⟩
    rintro ⟨g, there⟩
    cases (told g).2 there
  | cons g rest =>
    refine ⟨fun _ => ⟨g, (told g).1 List.mem_cons_self⟩, fun _ => ?_⟩
    dsimp only
    rw [capped_eq, foldl_least]
    refine le_min (foldl_min_nonneg ((told g).1 List.mem_cons_self).2 fun a member => ?_) zero_le_one
    exact ((told a).1 (List.mem_cons_of_mem g member)).2

/-- If no share falls, then the least one does not fall. -/
theorem minimum_mono {l l' : List ℚ} (rise : List.Forall₂ Rises l l') : minimum l ≤ minimum l' := by
  have shares := forall₂_filter_of_rises rise
  rw [minimum, minimum, filter_isTold, filter_isTold]
  generalize l.filter isTold = told at shares
  generalize l'.filter isTold = told' at shares
  cases shares with
  | nil => exact le_rfl
  | cons first others =>
    dsimp only
    rw [capped_eq, capped_eq, foldl_least, foldl_least]
    exact min_le_min_right 1 (foldl_min_mono others first)

theorem rises_minimum {l l' : List ℚ} (rise : List.Forall₂ Rises l l') :
    Rises (minimum l) (minimum l') := by
  refine ⟨minimum_mono rise, ?_⟩
  rw [minimum_nonneg_iff, minimum_nonneg_iff]
  induction rise with
  | nil => exact Iff.rfl
  | @cons a b l l' first _ ih =>
    simp only [List.mem_cons, exists_eq_or_imp, first.2, ih]

end Gradient

/-! ## Terminations -/

namespace Termination

/-- To prove something of all terminations it may be assumed of the children. -/
theorem induction {motive : Termination sh → Prop} (stepCount : ∀ n, motive (.stepCount n))
    (unimprovedStepCount : ∀ n, motive (.unimprovedStepCount n))
    (scoreAttained : ∀ target, motive (.scoreAttained target))
    (timeSpent : ∀ n, motive (.timeSpent n))
    (allOf : ∀ children, (∀ t ∈ children, motive t) → motive (.allOf children))
    (anyOf : ∀ children, (∀ t ∈ children, motive t) → motive (.anyOf children)) : ∀ t, motive t
  | .stepCount n => stepCount n
  | .unimprovedStepCount n => unimprovedStepCount n
  | .scoreAttained target => scoreAttained target
  | .timeSpent n => timeSpent n
  | .allOf children => allOf children fun t member =>
    have := List.sizeOf_lt_of_mem member
    induction stepCount unimprovedStepCount scoreAttained timeSpent allOf anyOf t
  | .anyOf children => anyOf children fun t member =>
    have := List.sizeOf_lt_of_mem member
    induction stepCount unimprovedStepCount scoreAttained timeSpent allOf anyOf t
  termination_by t => sizeOf t

/-- The termination, or one of the criteria that it joins, waits for a score. -/
inductive Aims (target : Score sh) : Termination sh → Prop
  | own : Aims target (.scoreAttained target)
  | allOf {children : List (Termination sh)} {t : Termination sh} (member : t ∈ children)
    (aims : Aims target t) : Aims target (.allOf children)
  | anyOf {children : List (Termination sh)} {t : Termination sh} (member : t ∈ children)
    (aims : Aims target t) : Aims target (.anyOf children)

theorem gradients_eq (p : Progress sh) (children : List (Termination sh)) :
    (gradients p children : List ℚ) = children.map (gradient p) := by
  induction children with
  | nil => rfl
  | cons t rest ih => rw [gradients, List.map_cons, ih]

end Termination

/-- A search has gone on: no step and no time was taken back, and neither was the score that it
began with nor the best one. -/
structure Progress.GoesOn (p q : Progress sh) : Prop where
  elapsed : p.elapsed ≤ q.elapsed
  steps : p.steps ≤ q.steps
  starting : ∀ x, p.starting = some x → q.starting = some x
  best : ∀ b, p.best = some b → ∃ b', q.best = some b' ∧ b ≤ b'

/-- The best score upholds the earlier one on the way to a target. -/
def Progress.Upholds (target : Score sh) (p q : Progress sh) : Prop :=
  ∀ start before after, p.starting = some start → p.best = some before → q.best = some after →
    start.Upholds target before after

namespace Termination

variable {p q : Progress sh}

theorem rises_scoreAttained {target : Score sh} (on : p.GoesOn q) (upholds : p.Upholds target q) :
    Gradient.Rises ((scoreAttained target).gradient p) ((scoreAttained target).gradient q) := by
  have nonneg (p : Progress sh) : 0 ≤ ((scoreAttained target).gradient p : ℚ) := by
    rw [gradient]
    split
    · exact Gradient.ofScore_nonneg ..
    · exact le_rfl
  refine ⟨?_, iff_of_true (nonneg p) (nonneg q)⟩
  rcases started : p.starting with _ | start
  · have none : ((scoreAttained target).gradient p : ℚ) = 0 := by
      rw [gradient, started]
      rfl
    rw [none]
    exact nonneg q
  · rcases best : p.best with _ | before
    · have none : ((scoreAttained target).gradient p : ℚ) = 0 := by
        rw [gradient, started, best]
        rfl
      rw [none]
      exact nonneg q
    · obtain ⟨after, better, -⟩ := on.best before best
      rw [gradient, gradient, started, best, on.starting start started, better]
      exact Score.upholds_iff.1 (upholds start before after started best better)

/-- The gradient of a termination does not fall while a search goes on, if the best score upholds the
earlier one on the way to all of its targets. -/
theorem rises_gradient (on : p.GoesOn q) (t : Termination sh)
    (upholds : ∀ target, t.Aims target → p.Upholds target q) :
    Gradient.Rises (t.gradient p) (t.gradient q) := by
  have joined (children : List (Termination sh))
      (each : ∀ t ∈ children, Gradient.Rises (t.gradient p) (t.gradient q)) :
      Gradient.Rises (Gradient.minimum (gradients p children))
        (Gradient.minimum (gradients q children)) := by
    refine Gradient.rises_minimum ?_
    rw [gradients_eq, gradients_eq, List.forall₂_map_left_iff, List.forall₂_map_right_iff]
    exact List.forall₂_same.2 each
  induction t using induction with
  | stepCount limit =>
    exact ⟨Gradient.ofSteps_mono on.steps limit,
      iff_of_true (Gradient.ofSteps_nonneg ..) (Gradient.ofSteps_nonneg ..)⟩
  | unimprovedStepCount limit => exact ⟨le_rfl, Iff.rfl⟩
  | scoreAttained target => exact rises_scoreAttained on (upholds target .own)
  | timeSpent limit =>
    exact ⟨Gradient.ofTime_mono on.elapsed limit,
      iff_of_true (Gradient.ofTime_nonneg ..) (Gradient.ofTime_nonneg ..)⟩
  | allOf children ih =>
    exact joined children fun t member =>
      ih t member fun target aims => upholds target (.allOf member aims)
  | anyOf children ih =>
    exact joined children fun t member =>
      ih t member fun target aims => upholds target (.anyOf member aims)

end Termination

end PlanSearch
