import Mathlib.Algebra.Order.BigOperators.Group.List
import PlanSearch.Proofs.Assembly.Registered
import PlanSearch.Proofs.Selector.SmallMoves

/-!
# Built selectors whose sizes are small

If the solutions of a search hold few entities, few values and short chains, then a selector of
moves that is built from settings is small: as many times as it has parts, some power of the largest
of these numbers. Where that is a word, no call comes upon a number that is too large.
-/

namespace PlanSearch

open Config

variable {S : Type} {inside : S → Prop} {n : ℕ}

/-! ## Graphs -/

namespace SubChains

variable {minimum maximum : ℕ} {g : ChainGraph}

theorem length_anchors_le (g : ChainGraph) : g.anchors.length ≤ g.size := by
  refine (List.length_filter_le ..).trans ?_
  simp [ChainGraph.handles]

/-- The runs of a small graph are few, and they are counted. -/
theorem few_runsIn (positive : 1 ≤ minimum) (ordered : minimum ≤ maximum) (few : g.size ≤ n)
    (fits : n * (n * (n + 1)) ≤ Count.max) :
    RunsFit minimum maximum g ∧ (runsIn minimum maximum g).length ≤ n * (n * (n + 1)) := by
  have square : g.size * (g.size + 1) ≤ n * (n + 1) := product_mono few
  have word : n * (n + 1) ≤ Count.max := by
    rcases Nat.eq_zero_or_pos n with rfl | some_
    · exact Nat.zero_le _
    · exact (Nat.le_mul_of_pos_left _ some_).trans fits
  have short : g.size ≤ g.size * (g.size + 1) := Nat.le_mul_of_pos_right _ (Nat.succ_pos _)
  have each : ∀ root ∈ g.anchors,
      (runsOf minimum maximum (g.trailing root)).length ≤ n * (n + 1) := by
    intro root _
    have shorter := length_trailing_le g root
    rw [length_runsOf positive]
    exact (length_bounds_le positive ordered (by omega)).trans (product_mono (by omega))
  have all : (runsIn minimum maximum g).length ≤ n * (n * (n + 1)) := by
    rw [runsIn, List.length_flatMap]
    calc (g.anchors.map fun root => (runsOf minimum maximum (g.trailing root)).length).sum
        ≤ (g.anchors.map fun root => (runsOf minimum maximum (g.trailing root)).length).length *
            (n * (n + 1)) := List.sum_le_card_nsmul _ _ (List.forall_mem_map.2 each)
      _ ≤ n * (n * (n + 1)) := by
          rw [List.length_map]
          exact Nat.mul_le_mul_right _ ((length_anchors_le g).trans few)
  exact ⟨⟨fun root _ => .of_le positive (length_trailing_le g root) (square.trans word),
    all.trans fits⟩, all⟩

end SubChains

namespace Assembly

/-- The solution has at most so many entities and values of the variable, and its chains at most so
many elements. -/
def RegisteredVariable.AtMost (n : ℕ) (s : S) : RegisteredVariable S → Prop
  | .plain _ entityCount valueCount => entityCount s ≤ n ∧ valueCount s ≤ n
  | .chained v entities values =>
    (v.graph s).size ≤ n ∧ (entities s).length ≤ n ∧ (values s).length ≤ n

/-- The given solutions have at most so many entities, values and elements of chains. -/
def Registry.AtMost (r : Registry S) (n : ℕ) (inside : S → Prop) : Prop :=
  ∀ v ∈ r.vars, ∀ s, inside s → v.AtMost n s

end Assembly

/-! ## Parts of settings -/

namespace Config.MoveSelectorSettings

mutual

/-- How many selectors of moves are united. -/
def parts : MoveSelectorSettings → ℕ
  | .change _ | .subChainChange _ => 1
  | .union children => allParts children

/-- How many selectors of moves there are in several ones. -/
def allParts : List MoveSelectorSettings → ℕ
  | [] => 0
  | c :: rest => parts c + allParts rest

end

end Config.MoveSelectorSettings

namespace Assembly

open Selector

/-- How many selectors of moves are united; without settings, one for each variable. -/
def Registry.parts (r : Registry S) : Option MoveSelectorSettings → ℕ
  | none => r.vars.length
  | some c => c.parts

/-- How many moves a part has at most; with that, its entities and values can be filtered. -/
def most (n : ℕ) : ℕ := 10 * (n + 1) ^ 4

variable {C : Type} {r : Registry S} {rs rs' : Recorders} {enclosing : SelectionOrder}

/-! ## Entities and values -/

section Leaf

variable [Candidate C] {items : S → Array C} {sel made : Selector Memory S C}
variable {c : SelectorSettings} {m : ℕ}

omit [Candidate C] in
theorem few_ordered {plugins : Plugins S C} (tame : plugins.Tame (· ≠ .overflow))
    {order : SelectionOrder} (few : sel.Few inside m)
    (built : ordered plugins c order sel = .ok made) : made.Few inside m := by
  have kept (built : (if c.cache.isCached then sel.caching c.cache (order = .random) else .ok sel) =
      .ok made) : made.Few inside m := by
    split at built
    · exact few.caching built
    · obtain rfl := Except.ok.inj built
      exact few
  cases order with
  | sorted =>
    obtain ⟨key, found, built⟩ := PlanSearch.andThen_eq_ok.1 built
    obtain ⟨name, member⟩ := Plugins.mem_of_find found
    exact few.sorting (tame.sorters _ member) built
  | probabilistic =>
    obtain ⟨weight, found, built⟩ := PlanSearch.andThen_eq_ok.1 built
    obtain ⟨name, member⟩ := Plugins.mem_of_find found
    exact few.probability (tame.weights _ member).1 built
  | shuffled => exact few.shuffling built
  | inherit => exact kept built
  | listed => exact kept built
  | random => exact kept built

theorem small_recorded {id : Option String} (small : Nonempty (sel.Small inside m))
    (built : recorded id sel rs = .ok (made, rs')) : Nonempty (made.Small inside m) := by
  obtain ⟨-, rfl⟩ | ⟨name, -, rfl, -⟩ := exists_of_recorded built
  · exact small
  · exact small.elim fun small => small.recording _

theorem small_leaf (tame : (Candidate.plugins r : Plugins S C).Tame (· ≠ .overflow))
    (few : ∀ s, inside s → (items s).size ≤ m) (some_ : 1 ≤ m) (room : m * 10 ≤ Count.max)
    (built : leaf r items c enclosing rs = .ok (sel, rs')) : Nonempty (sel.Small inside m) := by
  obtain ⟨id, -, rfl⟩ | ⟨-, base, rs₁, fewer, kept, based, accepted, arranged, built⟩ :=
    cases_of_leaf built
  · exact small_replaying _ some_
  · have base_ : base.Few inside m := by
      cases nearby : c.nearby with
      | some _ =>
        rw [nearby] at based
        obtain ⟨-, -, meter, distribution, found, -, made⟩ := exists_of_ranked based
        obtain ⟨key, member⟩ := Plugins.mem_of_find found
        exact (few_source items few false).nearby (tame.meters _ member) made
      | none =>
        rw [nearby] at based
        obtain ⟨rfl, -⟩ := Building.pure_eq_ok.1 based
        exact few_source items few _
    have fewer_ : fewer.Few inside m := by
      obtain ⟨-, rfl⟩ | ⟨-, accepts, -, -, rfl⟩ := cases_of_filtered accepted
      · exact base_
      · exact base_.filtering room accepts
    obtain ⟨kept_, -⟩ := few_ordered tame fewer_ arranged
    cases limit : c.limit with
    | none =>
      rw [limit] at built
      exact small_recorded ⟨kept_⟩ built
    | some n =>
      rw [limit] at built
      exact small_recorded (kept_.limited n) built

end Leaf

/-! ## Moves -/

section Moves

variable {sel : Selector Memory S (Move S)} (tame : r.Tame (· ≠ .overflow))
variable (few : r.AtMost n inside) (room : most n ≤ Count.max)

section Powers

variable (n)

theorem room_leaf : (n + 1) * 10 ≤ most n := by
  rw [most, Nat.mul_comm]
  exact Nat.mul_le_mul_left 10 (Nat.le_self_pow (by omega) _)

theorem room_changes : (n + 1) * (n + 1) ≤ most n := by
  rw [most, ← sq]
  exact (Nat.pow_le_pow_right (Nat.succ_pos n) (by omega)).trans (Nat.le_mul_of_pos_left _ (by omega))

theorem room_runs : n * (n * (n + 1)) ≤ (n + 1) ^ 3 := by
  rw [pow_succ, sq, Nat.mul_assoc]
  gcongr <;> omega

theorem room_subChainChanges : n * (n * (n + 1)) * (n + 1) * 2 ≤ most n := by
  have cube := Nat.mul_le_mul_right (n + 1) (room_runs n)
  rw [most, pow_succ]
  omega

end Powers

include tame few room

theorem small_changeSelector {v : RegisteredVariable S} (member : v ∈ r.vars)
    {entities values : SelectorSettings}
    (built : changeSelector r v entities values enclosing rs = .ok (sel, rs')) :
    Nonempty (sel.Small inside (most n)) := by
  have room_ := (room_leaf n).trans room
  have atMost := few v member
  cases v with
  | plain v entityCount valueCount =>
    obtain ⟨es, rs₁, vs, builtE, builtV, rfl⟩ := exists_of_changeSelector_plain built
    obtain ⟨smallE⟩ := small_leaf tame.indices (fun s within => by
      simpa using Nat.le_succ_of_le (atMost s within).1) (Nat.succ_pos n) room_ builtE
    obtain ⟨smallV⟩ := small_leaf tame.indices (fun s within => by
      simpa using Nat.le_succ_of_le (atMost s within).2) (Nat.succ_pos n) room_ builtV
    exact ⟨(smallChanges smallE smallV _ _ _).mono (room_changes n)⟩
  | chained v entityHandles valueHandles =>
    obtain ⟨es, rs₁, vs, builtE, builtV, rfl⟩ := exists_of_changeSelector_chained built
    obtain ⟨smallE⟩ := small_leaf tame.handles (fun s within => by
      simpa using Nat.le_succ_of_le (atMost s within).2.1) (Nat.succ_pos n) room_ builtE
    obtain ⟨smallV⟩ := small_leaf tame.handles (fun s within => by
      simpa using Nat.le_succ_of_le (atMost s within).2.2) (Nat.succ_pos n) room_ builtV
    exact ⟨(smallChanges smallE smallV _ _ _).mono (room_changes n)⟩

omit tame in
theorem small_runSelector {v : ChainedVariable S} {entities values : S → List Handle}
    (member : .chained v entities values ∈ r.vars) {c : SubChainSettings}
    {runs : Selector Memory S SubChain} (built : runSelector v c enclosing = .ok runs) :
    Nonempty (runs.Small inside (n * (n * (n + 1)))) := by
  have fits : n * (n * (n + 1)) ≤ Count.max := by
    have cube : n * (n * (n + 1)) ≤ n * (n * (n + 1)) * (n + 1) :=
      Nat.le_mul_of_pos_right _ (Nat.succ_pos n)
    have all := (room_subChainChanges n).trans room
    omega
  have read {isRandom : Bool} {runs : Selector Memory S SubChain}
      (made : subChains v c.minimum c.maximum (c.runs.getD {}).cache isRandom = .ok runs) :
      runs.Few inside (n * (n * (n + 1))) := by
    obtain ⟨positive, ordered⟩ := bounded_of_subChains made
    exact few_subChains positive ordered made fun s within =>
      SubChains.few_runsIn positive ordered (few _ member s within).1 fits
  rcases cases_of_runSelector built with ⟨-, base, made, built⟩ | ⟨-, built⟩
  · exact ((read made).shuffling built).elim fun small _ => ⟨small⟩
  · exact (read built).elim fun small _ => ⟨small⟩

theorem small_subChainSelector {c : SubChainSettings}
    (built : subChainSelector r c enclosing rs = .ok (sel, rs')) :
    Nonempty (sel.Small inside (most n)) := by
  obtain ⟨v, _, _, runs, values, found, builtR, builtV, rfl⟩ := exists_of_subChainSelector built
  have member := Registry.mem_of_find found
  obtain ⟨smallR⟩ := small_runSelector few room member builtR
  obtain ⟨smallV⟩ := small_leaf tame.handles (fun s within => by
    simpa using Nat.le_succ_of_le (few _ member s within).2.2) (Nat.succ_pos n)
    ((room_leaf n).trans room) builtV
  exact ⟨(smallSubChainChanges smallR smallV _ _).mono (room_subChainChanges n)⟩

end Moves

/-! ## Trees -/

mutual

theorem small_movesOf (tame : r.Tame (· ≠ .overflow)) (few : r.AtMost n inside)
    (c : MoveSelectorSettings) {rs rs' : Recorders} {sel : Selector Memory S (Move S)}
    (fits : c.parts * most n ≤ Count.max) (built : movesOf r enclosing c rs = .ok (sel, rs')) :
    Nonempty (sel.Small inside (c.parts * most n)) := by
  cases c with
  | change c =>
    rw [MoveSelectorSettings.parts, Nat.one_mul] at fits ⊢
    obtain ⟨v, rs₁, found, built⟩ := Building.andThen_eq_ok.1 built
    exact small_changeSelector tame few fits
      (Registry.mem_of_find (Building.lift_eq_ok.1 found).1) built
  | subChainChange c =>
    rw [MoveSelectorSettings.parts, Nat.one_mul] at fits ⊢
    exact small_subChainSelector tame few fits built
  | union children =>
    rw [MoveSelectorSettings.parts] at fits ⊢
    rw [movesOf] at built
    obtain ⟨sels, rs₁, each, built⟩ := Building.andThen_eq_ok.1 built
    obtain ⟨rfl, -⟩ := Building.pure_eq_ok.1 built
    obtain ⟨smalls⟩ := small_movesOfAll tame few children fits each
    exact ⟨smallUnion smalls fits _⟩

theorem small_movesOfAll (tame : r.Tame (· ≠ .overflow)) (few : r.AtMost n inside)
    (cs : List MoveSelectorSettings) {rs rs' : Recorders}
    {sels : List (Selector Memory S (Move S))}
    (fits : MoveSelectorSettings.allParts cs * most n ≤ Count.max)
    (built : movesOfAll r enclosing cs rs = .ok (sels, rs')) :
    Nonempty (Smalls inside sels (MoveSelectorSettings.allParts cs * most n)) := by
  cases cs with
  | nil =>
    obtain ⟨rfl, -⟩ := Building.pure_eq_ok.1 built
    rw [MoveSelectorSettings.allParts, Nat.zero_mul]
    exact ⟨.nil⟩
  | cons c rest =>
    obtain ⟨sel, rs₁, sels, first, others, rfl⟩ := movesOfAll_cons_eq_ok.1 built
    rw [MoveSelectorSettings.allParts, Nat.add_mul] at fits ⊢
    obtain ⟨small⟩ := small_movesOf tame few c ((Nat.le_add_right ..).trans fits) first
    obtain ⟨smalls⟩ := small_movesOfAll tame few rest ((Nat.le_add_left ..).trans fits) others
    exact ⟨.cons small smalls⟩

end

section Whole

variable {sel : Selector Memory S (Move S)} (tame : r.Tame (· ≠ .overflow))
variable (few : r.AtMost n inside)
include tame few

theorem smalls_each {vars : List (RegisteredVariable S)} (listed : ∀ v ∈ vars, v ∈ r.vars)
    {sels : List (Selector Memory S (Move S))} (fits : vars.length * most n ≤ Count.max)
    (each : Building.each (fun v => changeSelector r v {} {} enclosing) vars rs = .ok (sels, rs')) :
    Nonempty (Smalls inside sels (vars.length * most n)) := by
  induction vars generalizing sels rs rs' with
  | nil =>
    obtain ⟨rfl, -⟩ := Building.pure_eq_ok.1 each
    rw [List.length_nil, Nat.zero_mul]
    exact ⟨.nil⟩
  | cons v rest ih =>
    obtain ⟨member, listed⟩ := List.forall_mem_cons.1 listed
    obtain ⟨sel, rs₁, first, each⟩ := Building.andThen_eq_ok.1 each
    obtain ⟨sels, rs₂, others, each⟩ := Building.andThen_eq_ok.1 each
    obtain ⟨rfl, -⟩ := Building.pure_eq_ok.1 each
    rw [List.length_cons, Nat.succ_mul, Nat.add_comm] at fits ⊢
    obtain ⟨small⟩ := small_changeSelector tame few ((Nat.le_add_right ..).trans fits) member first
    obtain ⟨smalls⟩ := ih listed ((Nat.le_add_left ..).trans fits) others
    exact ⟨.cons small smalls⟩

/-- A built selector of moves is small. -/
theorem small_moveSelector {c : Option MoveSelectorSettings}
    (fits : r.parts c * most n ≤ Count.max) (built : moveSelector r c enclosing = .ok sel) :
    Nonempty (sel.Small inside (r.parts c * most n)) := by
  rcases cases_of_moveSelector built with ⟨rfl, _, _, made⟩ | ⟨c, _, _, rfl, made⟩
  · rw [Registry.parts] at fits ⊢
    unfold defaultMoves at made
    obtain ⟨sels, rs₁, each, made⟩ := Building.andThen_eq_ok.1 made
    obtain ⟨smalls⟩ := smalls_each tame few (fun _ => id) fits each
    split at made
    · cases (Building.lift_eq_ok.1 made).1
    · obtain ⟨rfl, -⟩ := Building.pure_eq_ok.1 made
      generalize r.vars.length * most n = total at smalls
      cases smalls with
      | cons small others => exact ⟨small.mono (Nat.le_add_right ..)⟩
    · obtain ⟨rfl, -⟩ := Building.pure_eq_ok.1 made
      exact ⟨smallUnion smalls fits _⟩
  · exact small_movesOf tame few c fits made

end Whole

end Assembly

end PlanSearch
