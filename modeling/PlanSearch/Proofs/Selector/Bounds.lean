import Mathlib.Algebra.GroupWithZero.Nat
import Mathlib.Data.List.Nodup
import Mathlib.Data.Prod.Lex
import Mathlib.Order.Interval.Finset.Nat
import PlanSearch.Proofs.Fault
import PlanSearch.Selector.SubChains

/-!
# Where the runs of a chain begin and end

The runs of admissible length in a chain are listed by where they begin and then by where they end.
Three computations speak of this list without making it: a closed formula for its length, a search
for the entry with a given index, and a cursor that looks for the next entry. The list of a chain
that is longer by one is a row of runs that begin at its head, and then the old list moved by one,
which is what the formula and the search follow. The cursor follows the order of the list.
-/

namespace PlanSearch

namespace SubChains

variable {length minimum maximum first last : ℕ} {a b p : ℕ × ℕ}

/-- Where the admissible runs end that begin at a position. -/
def ends (length minimum maximum first : ℕ) : List ℕ :=
  List.range' (first + (minimum - 1)) (lastEnd length maximum first + 1 - (first + (minimum - 1)))

/-- Where the admissible runs of a chain begin and end, by beginning and then by end. -/
def bounds (length minimum maximum : ℕ) : List (ℕ × ℕ) :=
  (List.range length).flatMap fun first => (ends length minimum maximum first).map (Prod.mk first)

/-- In a chain whose length is a word, no run that is cut off ends where the sum is cut off. -/
theorem lastEnd_eq (word : length ≤ Count.max) (maximum first : ℕ) :
    lastEnd length maximum first = min (first + (maximum - 1)) (length - 1) := by
  rw [lastEnd, Count.saturated]
  omega

theorem lastEnd_le (length maximum first : ℕ) : lastEnd length maximum first ≤ length - 1 :=
  Nat.min_le_right ..

theorem mem_bounds_iff : (first, last) ∈ bounds length minimum maximum ↔
    first < length ∧ first + (minimum - 1) ≤ last ∧ last ≤ lastEnd length maximum first := by
  simp only [bounds, ends, List.mem_flatMap, List.mem_range, List.mem_map, List.mem_range'_1,
    Prod.mk.injEq]
  constructor
  · rintro ⟨first, inside, last, ⟨here, short⟩, rfl, rfl⟩
    omega
  · rintro ⟨inside, long, short⟩
    exact ⟨first, inside, last, by omega, rfl, rfl⟩

theorem within_of_mem_bounds (positive : 1 ≤ minimum)
    (member : (first, last) ∈ bounds length minimum maximum) :
    first ≤ last ∧ last < length ∧ minimum ≤ last - first + 1 := by
  obtain ⟨inside, long, short⟩ := mem_bounds_iff.1 member
  have most := lastEnd_le length maximum first
  omega

/-- The list is in order. -/
theorem pairwise_bounds (length minimum maximum : ℕ) :
    (bounds length minimum maximum).Pairwise (Prod.Lex (· < ·) (· < ·)) := by
  refine List.pairwise_flatMap.2 ⟨fun first _ => ?_, ?_⟩
  · refine List.pairwise_map.2 ((List.pairwise_lt_range' ..).imp fun later => ?_)
    exact .right _ later
  · refine List.pairwise_lt_range.imp fun later x inFront y behind => ?_
    obtain ⟨_, _, rfl⟩ := List.mem_map.1 inFront
    obtain ⟨_, _, rfl⟩ := List.mem_map.1 behind
    exact .left _ _ later

theorem nodup_bounds (length minimum maximum : ℕ) : (bounds length minimum maximum).Nodup := by
  refine (pairwise_bounds length minimum maximum).imp ?_
  rintro a b before rfl
  rw [Prod.lex_def] at before
  omega

/-- Chains that are too short have no runs. -/
theorem bounds_of_lt (short : length < minimum) : bounds length minimum maximum = [] := by
  refine List.eq_nil_iff_forall_not_mem.2 fun b member => ?_
  obtain ⟨first, last⟩ := b
  have inside := within_of_mem_bounds (by omega) member
  omega

/-! ## How many -/

theorem ends_succ (positive : 1 ≤ minimum) (inside : first < length) (word : length < Count.max) :
    ends (length + 1) minimum maximum (first + 1) =
      (ends length minimum maximum first).map (· + 1) := by
  have width : lastEnd (length + 1) maximum (first + 1) + 1 - (first + 1 + (minimum - 1)) =
      lastEnd length maximum first + 1 - (first + (minimum - 1)) := by
    rw [lastEnd_eq (by omega), lastEnd_eq (by omega)]
    omega
  have start : first + 1 + (minimum - 1) = 1 + (first + (minimum - 1)) := by omega
  rw [ends, ends, width, start, ← List.map_add_range']
  exact List.map_congr_left fun i _ => Nat.add_comm 1 i

/-- The runs that do not begin at the head are those of the chain without its head. -/
theorem bounds_succ (positive : 1 ≤ minimum) (word : length < Count.max) :
    bounds (length + 1) minimum maximum =
      (ends (length + 1) minimum maximum 0).map (Prod.mk 0) ++
        (bounds length minimum maximum).map fun b => (b.1 + 1, b.2 + 1) := by
  rw [bounds, List.range_succ_eq_map, List.flatMap_cons, List.flatMap_map, bounds, List.map_flatMap]
  refine congrArg (_ ++ ·) (List.flatMap_congr fun first member => ?_)
  rw [ends_succ positive (List.mem_range.1 member) word, List.map_map, List.map_map]
  rfl

/-- One more than twice the number of pairs. -/
theorem triangle_succ (n : ℕ) : (n + 1) * (n + 1 + 1) / 2 = n * (n + 1) / 2 + (n + 1) := by
  have next := Nat.triangle_succ (n + 1)
  rw [Nat.mul_comm (n + 1) (n + 1 + 1)]
  rw [Nat.mul_comm n (n + 1)]
  exact next

/-- The number of runs by a formula. -/
def triangles (length minimum maximum : ℕ) : ℕ :=
  if length < minimum then 0
  else (length - minimum + 1) * (length - minimum + 1 + 1) / 2 -
    (length - maximum) * (length - maximum + 1) / 2

theorem product_mono {m n : ℕ} (le : m ≤ n) : m * (m + 1) ≤ n * (n + 1) :=
  Nat.mul_le_mul le (by omega)

/-- A chain that is longer by one has as many more runs as begin at its head. -/
theorem triangles_succ (positive : 1 ≤ minimum) (ordered : minimum ≤ maximum) (length : ℕ) :
    triangles (length + 1) minimum maximum =
      (min maximum (length + 1) - (minimum - 1)) + triangles length minimum maximum := by
  rcases Nat.lt_trichotomy (length + 1) minimum with short | exact_ | long
  · rw [triangles, triangles, if_pos short, if_pos (by omega)]
    omega
  · rw [triangles, triangles, if_neg (by omega), if_pos (by omega)]
    have one : length + 1 - minimum + 1 = 1 := by omega
    have none : length + 1 - maximum = 0 := by omega
    simp only [one, none]
    omega
  · rw [triangles, triangles, if_neg (by omega), if_neg (by omega)]
    have whole : length + 1 - minimum + 1 = length - minimum + 1 + 1 := by omega
    have grow := triangle_succ (length - minimum + 1)
    simp only [whole, grow]
    by_cases within : length + 1 ≤ maximum
    · have none : length + 1 - maximum = 0 := by omega
      have none' : length - maximum = 0 := by omega
      simp only [none, none']
      omega
    · have beyond : length + 1 - maximum = length - maximum + 1 := by omega
      have grow' := triangle_succ (length - maximum)
      have smaller : (length - maximum) * (length - maximum + 1) / 2 ≤
          (length - minimum + 1) * (length - minimum + 1 + 1) / 2 :=
        Nat.div_le_div_right (product_mono (by omega))
      simp only [beyond, grow']
      omega

theorem length_bounds (positive : 1 ≤ minimum) (ordered : minimum ≤ maximum)
    (word : length ≤ Count.max) :
    (bounds length minimum maximum).length = triangles length minimum maximum := by
  induction length with
  | zero =>
    rw [triangles, if_pos (by omega)]
    rfl
  | succ length ih =>
    have width : lastEnd (length + 1) maximum 0 + 1 - (0 + (minimum - 1)) =
        min maximum (length + 1) - (minimum - 1) := by
      rw [lastEnd_eq word]
      omega
    rw [bounds_succ positive (by omega), List.length_append, List.length_map, List.length_map,
      ih (by omega), triangles_succ positive ordered, ends, List.length_range', width]

theorem length_bounds_le (positive : 1 ≤ minimum) (ordered : minimum ≤ maximum)
    (word : length ≤ Count.max) :
    (bounds length minimum maximum).length ≤ length * (length + 1) := by
  rw [length_bounds positive ordered word, triangles]
  split
  · exact Nat.zero_le _
  · have shorter := product_mono (m := length - minimum + 1) (n := length) (by omega)
    have half := Nat.div_le_self ((length - minimum + 1) * (length - minimum + 1 + 1)) 2
    omega

/-- The runs of a chain of the given length are counted without leaving a word. -/
def CountFits (length minimum : ℕ) : Prop :=
  length ≤ Count.max ∧
    (minimum ≤ length → (length - minimum + 1) * (length - minimum + 1 + 1) ≤ Count.max)

/-- Chains that are short enough are counted, whatever the bounds are. -/
theorem CountFits.of_le {most : ℕ} (positive : 1 ≤ minimum) (short : length ≤ most)
    (small : most * (most + 1) ≤ Count.max) : CountFits length minimum := by
  have word : most ≤ most * (most + 1) := Nat.le_mul_of_pos_right most (by omega)
  exact ⟨by omega, fun _ => (product_mono (by omega)).trans small⟩

/-- The formula yields the number of runs, as long as its first product fits a word. -/
theorem hingesOn_count (positive : 1 ≤ minimum) (ordered : minimum ≤ maximum) (length : ℕ) :
    HingesOn (CountFits length minimum) (bounds length minimum maximum).length
      (count length minimum maximum) := by
  by_cases word : length ≤ Count.max
  · rw [length_bounds positive ordered word, count, (HingesOn.checked length).1 word]
    by_cases short : length < minimum
    · have fits : CountFits length minimum := ⟨word, fun long => by omega⟩
      rw [triangles, if_pos short]
      change HingesOn _ _ (if length < minimum then _ else _)
      rw [if_pos short]
      exact ⟨fun _ => rfl, fun large => absurd fits large⟩
    · rw [triangles, if_neg short]
      change HingesOn _ _ (if length < minimum then _ else _)
      rw [if_neg short]
      have second := product_mono (m := length - maximum) (n := length - minimum + 1) (by omega)
      refine ((HingesOn.checked _).bind ((HingesOn.checked _).map _)).congr ⟨fun both => ?_,
        fun fits => ?_⟩
      · exact ⟨word, fun _ => both.1⟩
      · exact ⟨fits.2 (by omega), second.trans (fits.2 (by omega))⟩
  · rw [count, (HingesOn.checked length).2 word]
    exact ⟨fun fits => absurd fits.1 word, fun _ => rfl⟩

theorem overflows_count (length minimum maximum : ℕ) : Overflows (count length minimum maximum) := by
  refine (overflows_checked length).bind fun _ _ => ?_
  dsimp only
  split
  · exact .ok 0
  · exact (overflows_checked _).bind fun _ _ => (overflows_checked _).bind fun _ _ => .ok _

theorem overflows_countAll (minimum maximum total : ℕ) (lengths : List ℕ) :
    Overflows (countAll minimum maximum total lengths) := by
  induction lengths generalizing total with
  | nil => exact .ok total
  | cons length rest ih =>
    exact (overflows_count length minimum maximum).bind fun _ _ =>
      (overflows_checked _).bind fun total _ => ih total

/-- The sum is the number of all runs, as long as all are counted and the sum fits a word. -/
theorem hingesOn_countAll (positive : 1 ≤ minimum) (ordered : minimum ≤ maximum) {total : ℕ}
    (small : total ≤ Count.max) (lengths : List ℕ) :
    let all := total + (lengths.map fun length => (bounds length minimum maximum).length).sum
    HingesOn ((∀ length ∈ lengths, CountFits length minimum) ∧ all ≤ Count.max) all
      (countAll minimum maximum total lengths) := by
  induction lengths generalizing total with
  | nil => exact (HingesOn.of_eq rfl).congr ⟨fun _ => ⟨List.forall_mem_nil _, small⟩, fun _ => trivial⟩
  | cons length rest ih =>
    have here := hingesOn_count positive ordered length
    simp only [List.map_cons, List.sum_cons, List.forall_mem_cons, ← Nat.add_assoc]
    rw [countAll]
    by_cases counted : CountFits length minimum
    · rw [here.1 counted]
      by_cases fits : total + (bounds length minimum maximum).length ≤ Count.max
      · change HingesOn _ _ (Count.checked _ >>= _)
        rw [(HingesOn.checked _).1 fits]
        exact (ih fits).congr (and_congr_left' (and_iff_right counted).symm)
      · change HingesOn _ _ (Count.checked _ >>= _)
        rw [(HingesOn.checked _).2 fits]
        exact ⟨fun both => absurd ((Nat.le_add_right ..).trans both.2) fits, fun _ => rfl⟩
    · rw [here.2 counted]
      exact ⟨fun both => absurd both.1.1 counted, fun _ => rfl⟩

/-! ## Which one -/

theorem length_ends (length minimum maximum first : ℕ) : (ends length minimum maximum first).length =
    lastEnd length maximum first + 1 - (first + (minimum - 1)) := List.length_range'

theorem getElem?_ends {index : ℕ} (inside : index < (ends length minimum maximum first).length) :
    (ends length minimum maximum first)[index]? = some (first + (minimum - 1) + index) := by
  rw [length_ends] at inside
  rw [ends, List.getElem?_range' inside, Nat.one_mul]

/-- The search from a position on is a search in the runs that begin there or later. -/
theorem nthFrom_eq (positive : 1 ≤ minimum) (ordered : minimum ≤ maximum)
    (word : length ≤ Count.max) {rounds start : ℕ} (whole : start + rounds = length) (index : ℕ) :
    nthFrom length minimum maximum rounds start index = ((List.range' start rounds).flatMap
      fun first => (ends length minimum maximum first).map (Prod.mk first))[index]? := by
  induction rounds generalizing start index with
  | zero => rfl
  | succ rounds ih =>
    rw [nthFrom]
    dsimp only
    by_cases short : length ≤ start + (minimum - 1)
    · have none : (List.range' start (rounds + 1)).flatMap (fun first =>
          (ends length minimum maximum first).map (Prod.mk first)) = [] := by
        refine List.flatMap_eq_nil_iff.2 fun first member => ?_
        obtain ⟨later, -⟩ := List.mem_range'_1.1 member
        have most := lastEnd_le length maximum first
        have empty : (ends length minimum maximum first).length = 0 := by
          rw [length_ends]
          omega
        rw [List.length_eq_zero_iff.1 empty, List.map_nil]
      rw [if_pos short, none, List.getElem?_nil]
    have width : lastEnd length maximum start - (start + (minimum - 1)) + 1 =
        (ends length minimum maximum start).length := by
      rw [length_ends, lastEnd_eq word]
      omega
    rw [if_neg short, width, List.range'_succ, List.flatMap_cons]
    by_cases here : index < (ends length minimum maximum start).length
    · rw [if_pos here, List.getElem?_append_left (by simpa using here), List.getElem?_map,
        getElem?_ends here, Option.map_some]
    · rw [if_neg here, ih (by omega), List.getElem?_append_right (by simpa using here),
        List.length_map]

theorem nth_eq (positive : 1 ≤ minimum) (ordered : minimum ≤ maximum) (word : length ≤ Count.max)
    (index : ℕ) :
    nth length minimum maximum index = (bounds length minimum maximum)[index]? := by
  rw [nth, nthFrom_eq positive ordered word (Nat.zero_add _), bounds, List.range_eq_range']

/-! ## Which comes next -/

/-- The entry is not in front of the given place. -/
def notBefore (p b : ℕ × ℕ) : Bool := decide (p.1 < b.1 ∨ p.1 = b.1 ∧ p.2 ≤ b.2)

/-- The entries from a place on. -/
def boundsFrom (length minimum maximum : ℕ) (p : ℕ × ℕ) : List (ℕ × ℕ) :=
  (bounds length minimum maximum).filter (notBefore p)

theorem mem_boundsFrom : b ∈ boundsFrom length minimum maximum p ↔
    b ∈ bounds length minimum maximum ∧ (p.1 < b.1 ∨ p.1 = b.1 ∧ p.2 ≤ b.2) := by
  simp [boundsFrom, notBefore]

theorem pairwise_boundsFrom (length minimum maximum : ℕ) (p : ℕ × ℕ) :
    (boundsFrom length minimum maximum p).Pairwise (Prod.Lex (· < ·) (· < ·)) :=
  (pairwise_bounds length minimum maximum).filter _

/-- Behind an entry the list goes on with the entries from the next end on. -/
theorem tail_boundsFrom {rest : List (ℕ × ℕ)}
    (here : boundsFrom length minimum maximum p = b :: rest) :
    boundsFrom length minimum maximum (b.1, b.2 + 1) = rest := by
  have sorted := pairwise_boundsFrom length minimum maximum p
  rw [here] at sorted
  obtain ⟨least, -⟩ := List.pairwise_cons.1 sorted
  have listed : b ∈ boundsFrom length minimum maximum p := here ▸ List.mem_cons_self ..
  have reached := (mem_boundsFrom.1 listed).2
  -- What is not in front of the next end is not in front of the place either.
  have within : boundsFrom length minimum maximum (b.1, b.2 + 1) =
      (boundsFrom length minimum maximum p).filter (notBefore (b.1, b.2 + 1)) := by
    rw [boundsFrom, boundsFrom, List.filter_filter]
    refine List.filter_congr fun c _ => ?_
    rw [Bool.eq_iff_iff, Bool.and_eq_true]
    simp only [notBefore, decide_eq_true_eq]
    omega
  have passed : notBefore (b.1, b.2 + 1) b = false := by simp [notBefore]
  have kept (c : ℕ × ℕ) (member : c ∈ rest) : notBefore (b.1, b.2 + 1) c = true := by
    have later := least c member
    rw [Prod.lex_def] at later
    simp only [notBefore, decide_eq_true_eq]
    omega
  rw [within, here, List.filter_cons_of_neg (by simp [passed]), List.filter_eq_self.2 kept]

/-- From the beginning on there are all entries. -/
theorem boundsFrom_start (positive : 1 ≤ minimum) (length maximum : ℕ) :
    boundsFrom length minimum maximum (0, minimum - 1) = bounds length minimum maximum := by
  refine List.filter_eq_self.2 fun b member => ?_
  obtain ⟨first, last⟩ := b
  have inside := within_of_mem_bounds positive member
  simp only [notBefore, decide_eq_true_eq]
  omega

/-- What the cursor finds is on the list from its place on, and nothing there comes before it. -/
theorem least_of_inChain (positive : 1 ≤ minimum) (ordered : minimum ≤ maximum)
    (found : inChain length minimum maximum p.1 p.2 = some b) :
    b ∈ boundsFrom length minimum maximum p ∧
      ∀ c ∈ boundsFrom length minimum maximum p, ¬Prod.Lex (· < ·) (· < ·) c b := by
  obtain ⟨first, last⟩ := p
  obtain ⟨i, j⟩ := b
  simp only [inChain, lastEnd, Count.saturated] at found
  simp only [mem_boundsFrom, Prod.lex_def, Prod.forall, mem_bounds_iff, lastEnd, Count.saturated]
  constructor
  · grind
  · intro i' j'
    grind

/-- The cursor looks at the row of its place and at the next one. Where both are used up, so are all
later rows, which are no longer. -/
theorem boundsFrom_of_inChain (positive : 1 ≤ minimum) (ordered : minimum ≤ maximum)
    (found : inChain length minimum maximum p.1 p.2 = none) :
    boundsFrom length minimum maximum p = [] := by
  refine List.eq_nil_iff_forall_not_mem.2 fun b member => ?_
  obtain ⟨i, j⟩ := b
  simp only [inChain, lastEnd, Count.saturated] at found
  simp only [mem_boundsFrom, mem_bounds_iff, lastEnd, Count.saturated] at member
  grind

theorem inChain_eq (positive : 1 ≤ minimum) (ordered : minimum ≤ maximum) (p : ℕ × ℕ) :
    inChain length minimum maximum p.1 p.2 = (boundsFrom length minimum maximum p).head? := by
  cases found : inChain length minimum maximum p.1 p.2 with
  | none => rw [boundsFrom_of_inChain positive ordered found, List.head?_nil]
  | some b =>
    obtain ⟨member, least⟩ := least_of_inChain positive ordered found
    have sorted := pairwise_boundsFrom length minimum maximum p
    cases left : boundsFrom length minimum maximum p with
    | nil => simp [left] at member
    | cons c rest =>
      rw [left] at member least sorted
      rcases List.mem_cons.1 member with same | later
      · rw [same, List.head?_cons]
      · exact absurd ((List.pairwise_cons.1 sorted).1 b later) (least c (List.mem_cons_self ..))

end SubChains

end PlanSearch
