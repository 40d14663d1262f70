import Mathlib.Order.Bounds.Basic
import PlanSearch.Proofs.Termination.Gradient

/-!
# What shares tell

A termination joins criteria in any number of layers. In exact numbers its gradient is that of the
slowest of its criteria that can tell how far a search has come, whatever stands between them; it is
minus one if none of them can tell, and only then.

The share of the way from a starting score to a target is the whole if and only if the target is
attained: the levels of a score count in the order in which scores are compared, and a level that is
short of its target leaves some weight undone that no later level can make up for. The share is
defined for any three scores, also where a start is not below its target.
-/

namespace PlanSearch

variable {sh : Shape}

/-! ## The least share -/

namespace Gradient

theorem unsupported_eq : (unsupported : ℚ) = -1 := by decide +kernel

theorem minimum_of_untold {l : List ℚ} (untold : ∀ g ∈ l, ¬0 ≤ g) : minimum l = unsupported := by
  have none : l.filter isTold = [] := List.filter_eq_nil_iff.2 fun g member told =>
    untold g member (of_decide_eq_true told)
  rw [minimum, filter_isTold, none]

theorem isLeast_foldl_min (rest : List ℚ) (g : ℚ) :
    IsLeast {a | a ∈ g :: rest} (rest.foldl min g) := by
  induction rest generalizing g with
  | nil => exact ⟨List.mem_singleton_self g, fun a member => (List.mem_singleton.1 member).ge⟩
  | cons b rest ih =>
    obtain ⟨member, least⟩ := ih (min g b)
    have below : ∀ a ∈ min g b :: rest, rest.foldl min (min g b) ≤ a := fun a h => least h
    obtain ⟨first, others⟩ := List.forall_mem_cons.1 below
    refine ⟨?_, fun a there => ?_⟩
    · change rest.foldl min (min g b) ∈ g :: b :: rest
      rcases List.mem_cons.1 member with same | member
      · rw [same]
        rcases min_choice g b with left | right
        · rw [left]
          exact List.mem_cons_self
        · rw [right]
          exact List.mem_cons_of_mem g List.mem_cons_self
      · exact List.mem_cons_of_mem g (List.mem_cons_of_mem b member)
    · rcases List.mem_cons.1 there with rfl | there
      · exact first.trans (min_le_left ..)
      · rcases List.mem_cons.1 there with rfl | there
        · exact first.trans (min_le_right ..)
        · exact others a there

/-- The minimum is the least of the shares that can be told. -/
theorem isLeast_minimum {l : List ℚ} (whole : ∀ g ∈ l, g ≤ 1) (told : ∃ g ∈ l, 0 ≤ g) :
    IsLeast {g | g ∈ l ∧ 0 ≤ g} (minimum l) := by
  have same (g : ℚ) : g ∈ l.filter isTold ↔ g ∈ l ∧ 0 ≤ g := by
    rw [List.mem_filter, isTold, decide_eq_true_iff]
  rw [minimum, filter_isTold]
  simp only [← same]
  cases shares : l.filter isTold with
  | nil =>
    obtain ⟨g, known⟩ := told
    exact absurd ((same g).2 known) (by simp [shares])
  | cons g rest =>
    dsimp only
    have least := isLeast_foldl_min rest g
    have inside := ((same _).1 (shares ▸ least.1)).1
    rw [foldl_least, capped_eq, min_eq_left (whole _ inside)]
    exact least

theorem minimum_le_one (l : List ℚ) : minimum l ≤ 1 := by
  rw [minimum]
  split
  · rw [unsupported_eq]
    norm_num
  · rw [capped_eq]
    exact min_le_right ..

theorem ofScore_le_one (start target score : Score sh) :
    (ofScore start target score : ℚ) ≤ 1 := by
  rw [ofScore_eq]
  exact min_le_right ..

theorem ofSteps_le_one (steps limit : ℕ) : (ofSteps steps limit : ℚ) ≤ 1 := by
  unfold ofSteps
  split
  · exact le_rfl
  · rw [capped_eq]
    exact min_le_right ..

theorem ofTime_le_one (elapsed limit : ℕ) : (ofTime elapsed limit : ℚ) ≤ 1 := by
  unfold ofTime
  split
  · exact le_rfl
  · rw [capped_eq]
    exact min_le_right ..

end Gradient

/-! ## The criteria of a termination -/

namespace Termination

mutual

/-- The criteria that a termination joins, however deep they lie. -/
def leaves : Termination sh → List (Termination sh)
  | stepCount limit => [stepCount limit]
  | unimprovedStepCount limit => [unimprovedStepCount limit]
  | scoreAttained target => [scoreAttained target]
  | timeSpent limit => [timeSpent limit]
  | allOf children => leavesOfAll children
  | anyOf children => leavesOfAll children

/-- The criteria that several terminations join. -/
def leavesOfAll : List (Termination sh) → List (Termination sh)
  | [] => []
  | t :: rest => leaves t ++ leavesOfAll rest

end

theorem leavesOfAll_eq (children : List (Termination sh)) :
    leavesOfAll children = children.flatMap leaves := by
  induction children with
  | nil => rfl
  | cons t rest ih => rw [leavesOfAll, List.flatMap_cons, ih]

theorem isAnySupported_iff (children : List (Termination sh)) :
    isAnySupported children = true ↔ ∃ t ∈ children, t.supportsGradient = true := by
  induction children with
  | nil => simp [isAnySupported]
  | cons t rest ih => simp [isAnySupported, ih]

/-- A gradient can be told if one of the criteria can tell it. -/
theorem supportsGradient_iff (t : Termination sh) :
    t.supportsGradient = true ↔ ∃ leaf ∈ t.leaves, leaf.supportsGradient = true := by
  have joined (children : List (Termination sh))
      (each : ∀ t ∈ children,
        t.supportsGradient = true ↔ ∃ leaf ∈ t.leaves, leaf.supportsGradient = true) :
      isAnySupported children = true ↔
        ∃ leaf ∈ leavesOfAll children, leaf.supportsGradient = true := by
    rw [isAnySupported_iff, leavesOfAll_eq]
    constructor
    · rintro ⟨t, member, supported⟩
      obtain ⟨leaf, deep, supported⟩ := (each t member).1 supported
      exact ⟨leaf, List.mem_flatMap.2 ⟨t, member, deep⟩, supported⟩
    · rintro ⟨leaf, deep, supported⟩
      obtain ⟨t, member, deep⟩ := List.mem_flatMap.1 deep
      exact ⟨t, member, (each t member).2 ⟨leaf, deep, supported⟩⟩
  induction t using induction with
  | stepCount limit => simp [leaves]
  | unimprovedStepCount limit => simp [leaves]
  | scoreAttained target => simp [leaves]
  | timeSpent limit => simp [leaves]
  | allOf children ih => exact joined children ih
  | anyOf children ih => exact joined children ih

/-! ## The gradient and the criteria -/

theorem gradient_le_one (p : Progress sh) (t : Termination sh) : (t.gradient p : ℚ) ≤ 1 := by
  cases t with
  | stepCount limit => exact Gradient.ofSteps_le_one ..
  | unimprovedStepCount limit => exact Gradient.unsupported_lt.le.trans zero_le_one
  | scoreAttained target =>
    rw [gradient]
    split
    · exact Gradient.ofScore_le_one ..
    · exact zero_le_one
  | timeSpent limit => exact Gradient.ofTime_le_one ..
  | allOf children => exact Gradient.minimum_le_one _
  | anyOf children => exact Gradient.minimum_le_one _

theorem scoreAttained_nonneg (p : Progress sh) (target : Score sh) :
    0 ≤ ((scoreAttained target).gradient p : ℚ) := by
  rw [gradient]
  split
  · exact Gradient.ofScore_nonneg ..
  · exact le_rfl

/-- The gradient that is told is no negative number, and the other one is. -/
theorem gradient_nonneg_iff (p : Progress sh) (t : Termination sh) :
    0 ≤ (t.gradient p : ℚ) ↔ t.supportsGradient = true := by
  have joined (children : List (Termination sh))
      (each : ∀ t ∈ children, 0 ≤ (t.gradient p : ℚ) ↔ t.supportsGradient = true) :
      0 ≤ Gradient.minimum (gradients p children : List ℚ) ↔ isAnySupported children = true := by
    rw [Gradient.minimum_nonneg_iff, isAnySupported_iff, gradients_eq]
    simp only [List.mem_map, exists_exists_and_eq_and]
    exact exists_congr fun t => and_congr_right (each t)
  induction t using induction with
  | stepCount limit => exact iff_of_true (Gradient.ofSteps_nonneg ..) rfl
  | unimprovedStepCount limit =>
    exact iff_of_false (not_le.2 Gradient.unsupported_lt) Bool.false_ne_true
  | scoreAttained target => exact iff_of_true (scoreAttained_nonneg ..) rfl
  | timeSpent limit => exact iff_of_true (Gradient.ofTime_nonneg ..) rfl
  | allOf children ih => exact joined children ih
  | anyOf children ih => exact joined children ih

theorem gradient_of_unsupported (p : Progress sh) {t : Termination sh}
    (unsupported : t.supportsGradient = false) : (t.gradient p : ℚ) = -1 := by
  have joined (children : List (Termination sh)) (none : isAnySupported children = false) :
      Gradient.minimum (gradients p children : List ℚ) = -1 := by
    rw [← Gradient.unsupported_eq]
    refine Gradient.minimum_of_untold fun g member told => ?_
    rw [gradients_eq] at member
    obtain ⟨t, there, rfl⟩ := List.mem_map.1 member
    have some := (isAnySupported_iff children).2 ⟨t, there, (gradient_nonneg_iff p t).1 told⟩
    exact Bool.false_ne_true (none.symm.trans some)
  cases t with
  | stepCount limit => cases unsupported
  | unimprovedStepCount limit => exact Gradient.unsupported_eq
  | scoreAttained target => cases unsupported
  | timeSpent limit => cases unsupported
  | allOf children => exact joined children unsupported
  | anyOf children => exact joined children unsupported

/-- What the criteria tell that can tell anything. -/
def shares (p : Progress sh) (t : Termination sh) : Set ℚ :=
  {g | ∃ leaf ∈ t.leaves, leaf.supportsGradient = true ∧ leaf.gradient p = g}

theorem shares_of_leaf (p : Progress sh) {t : Termination sh} (leaf : t.leaves = [t])
    (supported : t.supportsGradient = true) : t.shares p = {t.gradient p} := by
  ext g
  constructor
  · rintro ⟨t', deep, -, rfl⟩
    rw [leaf, List.mem_singleton] at deep
    rw [deep]
    rfl
  · rintro rfl
    exact ⟨t, leaf ▸ List.mem_singleton_self t, supported, rfl⟩

/-- A gradient is the least one of the criteria if those of the children are. -/
theorem isLeast_of_children (p : Progress sh) {children : List (Termination sh)}
    (each : ∀ t ∈ children, t.supportsGradient = true → IsLeast (t.shares p) (t.gradient p))
    (supported : isAnySupported children = true) :
    IsLeast ((allOf children).shares p) (Gradient.minimum (gradients p children)) := by
  have shares_iff (g : ℚ) : g ∈ (allOf children).shares p ↔ ∃ t ∈ children, g ∈ t.shares p := by
    constructor
    · rintro ⟨leaf, deep, told⟩
      rw [leaves, leavesOfAll_eq] at deep
      obtain ⟨t, member, deep⟩ := List.mem_flatMap.1 deep
      exact ⟨t, member, leaf, deep, told⟩
    · rintro ⟨t, member, leaf, deep, told⟩
      refine ⟨leaf, ?_, told⟩
      rw [leaves, leavesOfAll_eq]
      exact List.mem_flatMap.2 ⟨t, member, deep⟩
  rw [gradients_eq]
  obtain ⟨t, member, told⟩ := (isAnySupported_iff children).1 supported
  obtain ⟨⟨reached, known⟩, least⟩ := Gradient.isLeast_minimum
    (l := children.map (gradient p)) (List.forall_mem_map.2 fun t _ => gradient_le_one p t)
    ⟨t.gradient p, List.mem_map_of_mem member, (gradient_nonneg_iff p t).2 told⟩
  constructor
  · obtain ⟨t, member, same⟩ := List.mem_map.1 reached
    have told := (gradient_nonneg_iff p t).1 (same ▸ known)
    exact (shares_iff _).2 ⟨t, member, same ▸ (each t member told).1⟩
  · intro g there
    obtain ⟨t, member, there⟩ := (shares_iff g).1 there
    obtain ⟨leaf, deep, told, -⟩ := id there
    have told : t.supportsGradient = true := (supportsGradient_iff t).2 ⟨leaf, deep, told⟩
    have reached : Gradient.minimum (children.map (gradient p)) ≤ (t.gradient p : ℚ) :=
      least ⟨List.mem_map_of_mem member, (gradient_nonneg_iff p t).2 told⟩
    exact reached.trans ((each t member told).2 there)

/-- A gradient that can be told is the least one of the criteria. -/
theorem isLeast_gradient (p : Progress sh) (t : Termination sh)
    (supported : t.supportsGradient = true) : IsLeast (t.shares p) (t.gradient p) := by
  have leaf (t : Termination sh) (single : t.leaves = [t]) (told : t.supportsGradient = true) :
      IsLeast (t.shares p) (t.gradient p) := by
    rw [shares_of_leaf p single told]
    exact isLeast_singleton
  induction t using induction with
  | stepCount limit => exact leaf _ rfl rfl
  | unimprovedStepCount limit => cases supported
  | scoreAttained target => exact leaf _ rfl rfl
  | timeSpent limit => exact leaf _ rfl rfl
  | allOf children ih => exact isLeast_of_children p ih supported
  | anyOf children ih => exact isLeast_of_children p ih supported

/-- The gradient of a termination is minus one if none of its criteria can tell one; otherwise it is
a share between zero and one, the least of those of all criteria that can. -/
theorem gradient_slowest (p : Progress sh) (t : Termination sh) :
    ((t.gradient p : ℚ) = -1 ↔ t.supportsGradient = false) ∧
      (t.supportsGradient = true →
        0 ≤ (t.gradient p : ℚ) ∧ (t.gradient p : ℚ) ≤ 1 ∧
          IsLeast {g : ℚ | ∃ leaf ∈ t.leaves, leaf.supportsGradient = true ∧ leaf.gradient p = g}
            (t.gradient p)) := by
  refine ⟨⟨fun negative => ?_, gradient_of_unsupported p⟩, fun supported => ?_⟩
  · refine Bool.eq_false_iff.2 fun supported => ?_
    have told := (gradient_nonneg_iff p t).2 supported
    rw [negative] at told
    norm_num at told
  · exact ⟨(gradient_nonneg_iff p t).2 supported, gradient_le_one p t,
      isLeast_gradient p t supported⟩

/-- Criteria in three layers, with an empty node and one that cannot tell anything. -/
def layered : Termination .simple :=
  .anyOf [.allOf [], .allOf [.unimprovedStepCount 5, .anyOf [.stepCount 10, .timeSpent 4000000000]],
    .anyOf [.unimprovedStepCount 1], .scoreAttained (.ofLevel 0)]

/-- Six of ten steps are done, one of four seconds has passed, and half of the way to the target. -/
theorem gradient_slowest_layered :
    let p : Progress .simple :=
      { elapsed := 1000000000, steps := 6, starting := some (.ofLevel (-10)),
        best := some (.ofLevel (-5)) }
    layered.supportsGradient = true ∧ (layered.gradient p : ℚ) = 1 / 4 ∧
      IsLeast {g : ℚ | ∃ leaf ∈ layered.leaves, leaf.supportsGradient = true ∧ leaf.gradient p = g}
        (1 / 4) := by
  intro p
  have least := ((gradient_slowest p layered).2 rfl).2.2
  have value : (layered.gradient p : ℚ) = 1 / 4 := by decide +kernel
  exact ⟨rfl, value, value ▸ least⟩

end Termination

/-! ## Numbers that may be undefined -/

/-- A fraction, or nothing, which is what a division by zero comes to. -/
structure Checked where
  value? : Option ℚ

namespace Checked

def defined (x : ℚ) : Checked := ⟨some x⟩

def undefined : Checked := ⟨none⟩

/-- An operation on fractions, where nothing is made of nothing. -/
def lift (f : ℚ → ℚ → Option ℚ) (a b : Checked) : Checked :=
  match a, b with
  | ⟨some x⟩, ⟨some y⟩ => ⟨f x y⟩
  | _, _ => undefined

/-- Nothing lies below every number, so that it is kept as the smaller one of two. -/
def isBelow (a b : Checked) : Bool :=
  match a, b with
  | ⟨some x⟩, ⟨some y⟩ => decide (x < y)
  | ⟨none⟩, ⟨some _⟩ => true
  | _, ⟨none⟩ => false

instance : Scale Checked where
  add := lift fun x y => some (x + y)
  sub := lift fun x y => some (x - y)
  mul := lift fun x y => some (x * y)
  div := lift fun x y => if y = 0 then none else some (x / y)
  lt a b := a.isBelow b = true
  le a b := b.isBelow a = false
  decLt a b := inferInstanceAs (Decidable (a.isBelow b = true))
  decLe a b := inferInstanceAs (Decidable (b.isBelow a = false))
  ofLevel x := defined (x.toInt : ℚ)
  ofCount n := defined n

variable {x y : ℚ}

@[simp]
theorem defined_add : defined x + defined y = defined (x + y) := rfl

@[simp]
theorem defined_sub : defined x - defined y = defined (x - y) := rfl

@[simp]
theorem defined_mul : defined x * defined y = defined (x * y) := rfl

@[simp]
theorem undefined_add (a : Checked) : undefined + a = undefined := rfl

theorem defined_div (divisor : y ≠ 0) : defined x / defined y = defined (x / y) :=
  congrArg Checked.mk (if_neg divisor)

@[simp]
theorem defined_lt : defined x < defined y ↔ x < y := decide_eq_true_iff

@[simp]
theorem ofCount_eq (n : ℕ) : (Scale.ofCount n : Checked) = defined n := rfl

end Checked

namespace Gradient

open Checked

/-- The divisions on a way are all by numbers other than zero. -/
theorem along_defined (levels : List (ℚ × ℚ × ℚ)) (done weight : ℚ) :
    along (defined done) (defined weight)
      (levels.map fun l => (defined l.1, defined l.2.1, defined l.2.2)) =
      defined (along done weight levels) := by
  induction levels generalizing done weight with
  | nil => rfl
  | cons level rest ih =>
    obtain ⟨start, target, level⟩ := level
    have quarters : (Scale.ofCount 3 / Scale.ofCount 4 : Checked) = defined (3 / 4) :=
      defined_div (by norm_num)
    have part : (if rest.isEmpty then defined weight else defined weight * defined (3 / 4)) =
        defined (width weight rest.isEmpty) := by
      unfold width
      split <;> rfl
    rw [along_cons, List.map_cons, along]
    simp only [List.isEmpty_map, quarters, part, defined_sub, defined_add, defined_lt]
    split
    · rw [add_sub_cancel]
    split
    · split
      · rfl
      · rename_i below above
        have way : 0 < target - start := sub_pos.2 ((not_lt.1 above).trans_lt below)
        rw [defined_mul, defined_div way.ne', defined_add]
        exact ih ..
    · exact ih ..

/-- What has become undefined on the way is so at its end. -/
theorem along_undefined (levels : List (Checked × Checked × Checked)) (weight : Checked) :
    along undefined weight levels = undefined := by
  induction levels generalizing weight with
  | nil => rfl
  | cons level rest ih =>
    rw [along]
    simp only [undefined_add, ih, ite_self]

/-- No share of the way to a score comes of a division by zero. -/
theorem ofScore_defined (start target score : Score sh) :
    (ofScore start target score : Checked) = defined (ofScore start target score) := by
  have levels : (start.toList.map Scale.ofLevel).zip ((target.toList.map Scale.ofLevel).zip
      (score.toList.map Scale.ofLevel)) =
      (way start.toList target.toList score.toList).map fun l =>
        (defined l.1, defined l.2.1, defined l.2.2) := by
    simp only [way, List.zip_map, List.map_map]
    rfl
  unfold ofScore
  dsimp only
  rw [levels, ofCount_eq, ofCount_eq, along_defined, capped, least, capped, least]
  simp only [ofCount_eq, defined_lt]
  exact (apply_ite defined ..).symm

/-! ## The whole way -/

/-- There is weight left as long as there are levels left, and none after the last one. -/
def IsLeft (weight : ℚ) (levels : List Int64) : Prop :=
  if levels.isEmpty then weight = 0 else 0 < weight

theorem IsLeft.nonneg {weight : ℚ} {levels : List Int64} (left : IsLeft weight levels) :
    0 ≤ weight := by
  unfold IsLeft at left
  split at left
  · exact left.ge
  · exact left.le

/-- The last level takes all of the weight, and every other one leaves some of it. -/
theorem isLeft_sub_width {weight : ℚ} (positive : 0 < weight) (levels : List Int64) :
    IsLeft (weight - width weight levels.isEmpty) levels := by
  unfold IsLeft width
  split
  · exact sub_self weight
  · linarith

theorem width_pos {weight : ℚ} (positive : 0 < weight) (last : Bool) : 0 < width weight last := by
  unfold width
  split
  · exact positive
  · positivity

/-- A level on its way is not done as a whole. -/
theorem part_lt {width start target level : ℚ} (positive : 0 < width) (below : level < target)
    (above : start ≤ level) : part width start target level < width := by
  have way : 0 < target - start := by linarith
  rw [part, if_pos below, div_lt_iff₀ way]
  exact mul_lt_mul_of_pos_left (by linarith) positive

/-- The whole weight is done if and only if no level is short of its target before one is beyond
it. -/
theorem along_eq_iff {starts targets levels : List Int64} (enough : levels.length ≤ starts.length)
    (same : targets.length = levels.length) {done weight : ℚ} (left : IsLeft weight levels) :
    along done weight (way starts targets levels) = done + weight ↔ targets ≤ levels := by
  induction levels generalizing starts targets done weight with
  | nil =>
    obtain rfl := List.length_eq_zero_iff.1 same
    have none : way starts [] [] = [] := by simp [way]
    have spent : weight = 0 := left
    simp [none, along, spent]
  | cons level levels ih =>
    obtain ⟨target, targets, rfl⟩ := List.exists_cons_of_length_eq_add_one same
    obtain ⟨start, starts, rfl⟩ :=
      List.exists_cons_of_ne_nil (l := starts) (by rintro rfl; cases enough)
    have enough : levels.length ≤ starts.length := Nat.le_of_succ_le_succ enough
    have equal : targets.length = levels.length := Nat.succ.inj same
    have cons : way (start :: starts) (target :: targets) (level :: levels) =
        (exact start, exact target, exact level) :: way starts targets levels := rfl
    have last : (way starts targets levels).isEmpty = levels.isEmpty := by
      rw [Bool.eq_iff_iff, List.isEmpty_iff_length_eq_zero, List.isEmpty_iff_length_eq_zero]
      simp [way, equal, enough]
    have positive : 0 < weight := left
    have rest := isLeft_sub_width positive levels
    have lower (below : exact level < exact target) :
        ¬(target < level ∨ target = level ∧ targets ≤ levels) := by
      have below := exact_lt.1 below
      rintro (other | ⟨other, -⟩)
      · exact Int64.lt_asymm below other
      · exact Int64.ne_of_lt below other.symm
    rw [cons, List.cons_le_cons_iff]
    rcases beyond_or_short_or_within (exact start) (exact target) (exact level) with
      beyond | ⟨below, short⟩ | ⟨within, above⟩
    · rw [along_of_beyond beyond]
      exact iff_of_true rfl (.inl (exact_lt.1 beyond))
    · rw [along_of_short below short]
      exact iff_of_false (by linarith) (lower below)
    · rw [along_of_within within above, last]
      rcases within.lt_or_eq with below | reached
      · have missing := part_lt (width_pos positive levels.isEmpty) below (above below)
        have most (done : ℚ) : along done (weight - width weight levels.isEmpty)
            (way starts targets levels) ≤ done + (weight - width weight levels.isEmpty) :=
          along_le _ rest.nonneg
        refine iff_of_false (fun whole => ?_) (lower below)
        linarith [most (done + part (width weight levels.isEmpty) (exact start) (exact target)
          (exact level))]
      · obtain rfl : level = target :=
          Int64.le_antisymm (exact_le.1 reached.le) (exact_le.1 reached.ge)
        have whole : part (width weight levels.isEmpty) (exact start) (exact level) (exact level) =
            width weight levels.isEmpty := if_neg (lt_irrefl _)
        have all : done + weight = done + width weight levels.isEmpty +
            (weight - width weight levels.isEmpty) := by linarith
        rw [whole, all, ih enough equal rest]
        simp [Int64.lt_irrefl]

/-- The whole way to a target is done if and only if the score is at least as good. -/
theorem ofScore_eq_one_iff (leveled : 0 < sh.levelCount) (start target score : Score sh) :
    (ofScore start target score : ℚ) = 1 ↔ target.toList ≤ score.toList := by
  have left : IsLeft 1 score.toList := by
    have levels : score.toList ≠ [] := by
      rw [← List.length_pos_iff, score.length_toList]
      exact leveled
    simp [IsLeft, levels]
  have all : along 0 1 (way start.toList target.toList score.toList) = 0 + 1 ↔
      target.toList ≤ score.toList := along_eq_iff (by simp) (by simp) left
  have most : along 0 1 (way start.toList target.toList score.toList) ≤ 0 + 1 :=
    along_le _ left.nonneg
  rw [zero_add] at all most
  rw [ofScore_eq, min_eq_left most, all]

end Gradient

namespace Termination

/-- The share of the way from a starting score to a target comes of no division by zero, lies
between zero and one, and is one if and only if the score is at least the target; so a search that
waits for a score has come the whole way exactly when it is to stop. -/
theorem gradient_attained (leveled : 0 < sh.levelCount) (start target score : Score sh) :
    (Gradient.ofScore start target score : Checked) =
        .defined (Gradient.ofScore start target score) ∧
      0 ≤ (Gradient.ofScore start target score : ℚ) ∧
      (Gradient.ofScore start target score : ℚ) ≤ 1 ∧
      ((Gradient.ofScore start target score : ℚ) = 1 ↔ target.toList ≤ score.toList) ∧
      ∀ p : Progress sh, p.starting = some start → p.best = some score →
        (((scoreAttained target).gradient p : ℚ) = 1 ↔
          (scoreAttained target).isTerminated p = true) := by
  have whole := Gradient.ofScore_eq_one_iff leveled start target score
  refine ⟨Gradient.ofScore_defined .., Gradient.ofScore_nonneg .., Gradient.ofScore_le_one ..,
    whole, fun p started reached => ?_⟩
  rw [gradient, isTerminated, started, reached]
  dsimp only [Option.any_some]
  rw [whole, Score.toList_le_iff, ← not_lt, Bool.not_eq_true', decide_eq_false_iff_not]

/-- The start lies beyond the target on the second level, and the score makes up there for what it
lacks on the third one. -/
theorem gradient_attained_beyond :
    let start : Score (.bendable 1 2) := .ofList [-5, 7, 0]
    let target : Score (.bendable 1 2) := .ofList [0, 3, 10]
    let score : Score (.bendable 1 2) := .ofList [0, 5, -100]
    let p : Progress (.bendable 1 2) := { starting := some start, best := some score }
    (Gradient.ofScore start target score : Checked) = .defined 1 ∧
      ((scoreAttained target).gradient p : ℚ) = 1 ∧
      (scoreAttained target).isTerminated p = true := by
  intro start target score p
  obtain ⟨defined, -, -, whole, stops⟩ := gradient_attained (by decide) start target score
  have one : (Gradient.ofScore start target score : ℚ) = 1 := whole.2 (by decide)
  exact ⟨one ▸ defined, one, (stops p rfl rfl).1 one⟩

end Termination

end PlanSearch
