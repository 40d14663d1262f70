import Mathlib.Data.List.TakeWhile
import PlanSearch.Proofs.Acceptor.Renewal

/-!
# What recent steps recorded

A list of keys that has been told of every step is tabu for exactly the keys recorded in the steps
that are remembered. Keys may be recorded several times in a step, and again before they expire; the
steps in which nothing is recorded count as well. The four acceptors that look at such a list differ
in what the keys of a move are and in what a step records.
-/

namespace PlanSearch

/-! ## Moves that are the same -/

namespace Move

variable {S : Type}

/-- What two moves are compared by: a variable stands for its class and its name. -/
inductive Label where
  | change (var : Nat × String) (entity : Nat) (target : Option Nat)
  | chainedChange (var : Nat × String) (entity : Handle) (target : Option Handle)
  | changePart (var : Nat × String) (run : SubChain) (target : Option Handle)
  | reverseChangePart (var : Nat × String) (run : SubChain) (target : Option Handle)
  | composite (parts : List Label)

mutual

def label : Move S → Label
  | .change v e x => .change (v.descriptorIndex, v.name) e x
  | .chainedChange v e x => .chainedChange (v.descriptorIndex, v.name) e x
  | .changePart v run x => .changePart (v.descriptorIndex, v.name) run x
  | .reverseChangePart v run x => .reverseChangePart (v.descriptorIndex, v.name) run x
  | .composite parts => .composite (labelAll parts)

/-- The labels of several moves. -/
def labelAll : List (Move S) → List Label
  | [] => []
  | m :: rest => label m :: labelAll rest

end

theorem beq_plain (v w : PlainVariable S) :
    (v == w) = true ↔ (v.descriptorIndex, v.name) = (w.descriptorIndex, w.name) := by
  change (v.descriptorIndex == w.descriptorIndex && v.name == w.name) = true ↔ _
  simp

theorem beq_chained (v w : ChainedVariable S) :
    (v == w) = true ↔ (v.descriptorIndex, v.name) = (w.descriptorIndex, w.name) := by
  change (v.descriptorIndex == w.descriptorIndex && v.name == w.name) = true ↔ _
  simp

mutual

theorem same_iff : ∀ a b : Move S, same a b = true ↔ a.label = b.label
  | .change v e x, b => by cases b <;> simp [same, label, beq_plain, and_assoc]
  | .chainedChange v e x, b => by cases b <;> simp [same, label, beq_chained, and_assoc]
  | .changePart v run x, b => by cases b <;> simp [same, label, beq_chained, and_assoc]
  | .reverseChangePart v run x, b => by cases b <;> simp [same, label, beq_chained, and_assoc]
  | .composite as, b => by
    cases b with
    | composite bs => simpa [same, label] using sameList_iff as bs
    | _ => simp [same, label]

theorem sameList_iff : ∀ as bs : List (Move S), sameList as bs = true ↔ labelAll as = labelAll bs
  | [], bs => by cases bs <;> simp [sameList, labelAll]
  | a :: as, bs => by
    cases bs with
    | nil => simp [sameList, labelAll]
    | cons b bs => simp [sameList, labelAll, same_iff a b, sameList_iff as bs]

end

/-- Moves are the same if their labels are. -/
theorem beq_iff (a b : Move S) : (a == b) = true ↔ a.label = b.label := same_iff a b

instance : EquivBEq (Move S) where
  rfl := (beq_iff _ _).2 rfl
  symm h := (beq_iff _ _).2 ((beq_iff _ _).1 h).symm
  trans h h' := (beq_iff _ _).2 (((beq_iff _ _).1 h).trans ((beq_iff _ _).1 h'))

end Move

/-! ## Lists of keys -/

namespace Tabu

variable {K : Type} [BEq K] {t : Tabu K} {records : List (K × ℕ)} {steps : List (List K)}
variable {keys : List K} {key : K} {size step begun : ℕ}

/-- The recording is too old for a step. -/
def isOver (size step : ℕ) (r : K × ℕ) : Bool := decide (Count.saturated (r.2 + size) < step)

omit [BEq K] in
theorem isOver_iff (fits : step ≤ Count.max) (r : K × ℕ) :
    isOver size step r = false ↔ step ≤ r.2 + size := by
  rw [isOver, decide_eq_false_iff_not, Count.saturated]
  omega

omit [BEq K] in
theorem isOver_mono {r r' : K × ℕ} (later : r.2 ≤ r'.2) (over_ : isOver size step r' = true) :
    isOver size step r = true := by
  rw [isOver, decide_eq_true_iff, Count.saturated] at over_ ⊢
  omega

/-- What is too old is dropped from the front, and is no longer the latest recording of its key. -/
theorem expire_eq (size step : ℕ) (latest sequence : List (K × ℕ)) :
    expire size step latest sequence =
      (latest.filter fun e => !(sequence.takeWhile (isOver size step)).any fun r =>
          r.1 == e.1 && r.2 == e.2,
        sequence.dropWhile (isOver size step)) := by
  induction sequence generalizing latest with
  | nil => simp [expire]
  | cons r rest ih =>
    obtain ⟨key, recorded⟩ := r
    rw [expire]
    by_cases kept : step ≤ Count.saturated (recorded + size)
    · have young : isOver size step (key, recorded) = false := decide_eq_false (Nat.not_lt.2 kept)
      simp [kept, young]
    · have old : isOver size step (key, recorded) = true := decide_eq_true (Nat.lt_of_not_le kept)
      rw [if_neg kept, ih, List.filter_filter]
      simp [old, Bool.and_comm]

/-- The list holds just these recordings, in the order of their steps. The steps in which keys were
recorded last are among them. -/
structure Remembers (t : Tabu K) (records : List (K × ℕ)) : Prop where
  sequence : t.sequence = records
  sorted : records.Pairwise fun r r' => r.2 ≤ r'.2
  recorded : ∀ e ∈ t.latest, ∃ r ∈ records, r.1 == e.1 ∧ r.2 = e.2
  known : ∀ r ∈ records, ∃ e ∈ t.latest, r.1 == e.1 ∧ r.2 ≤ e.2

theorem record_cons (t : Tabu K) (key : K) (rest : List K) (step : ℕ) :
    t.record (key :: rest) step = (t.record [key] step).record rest step := by
  simp [record]

theorem remembers_clear (t : Tabu K) : t.clear.Remembers [] := ⟨rfl, .nil, nofun, nofun⟩

variable [EquivBEq K]

/-- Keys are tabu if one of them was recorded. -/
theorem Remembers.isTabu_iff (remembers : t.Remembers records) :
    t.isTabu keys = true ↔ ∃ key ∈ keys, ∃ r ∈ records, key == r.1 := by
  simp only [isTabu, List.any_eq_true]
  refine exists_congr fun key => and_congr_right fun _ => ⟨?_, ?_⟩
  · rintro ⟨e, member, same⟩
    obtain ⟨r, known, same', -⟩ := remembers.recorded e member
    exact ⟨r, known, BEq.trans same (BEq.symm same')⟩
  · rintro ⟨r, known, same⟩
    obtain ⟨e, member, same', -⟩ := remembers.known r known
    exact ⟨e, member, BEq.trans same same'⟩

theorem Remembers.recordOne (remembers : t.Remembers records) (last : ∀ r ∈ records, r.2 ≤ step) :
    (t.record [key] step).Remembers (records ++ [(key, step)]) where
  sequence := congrArg (· ++ [(key, step)]) remembers.sequence
  sorted := List.pairwise_append.2 ⟨remembers.sorted, List.pairwise_singleton ..,
    fun r known r' new => by rw [List.mem_singleton.1 new]; exact last r known⟩
  recorded e member := by
    rcases List.mem_cons.1 member with rfl | member
    · exact ⟨(key, step), by simp, BEq.rfl, rfl⟩
    · obtain ⟨r, known, same⟩ := remembers.recorded e (List.mem_filter.1 member).1
      exact ⟨r, by simp [known], same⟩
  known r member := by
    rcases List.mem_append.1 member with member | new
    · obtain ⟨e, known, same, later⟩ := remembers.known r member
      by_cases again : key == e.1
      · exact ⟨(key, step), List.mem_cons_self, BEq.trans same (BEq.symm again), last r member⟩
      · exact ⟨e, List.mem_cons_of_mem _ (List.mem_filter.2 ⟨known, by simpa using again⟩), same,
          later⟩
    · rw [List.mem_singleton.1 new]
      exact ⟨(key, step), List.mem_cons_self, BEq.rfl, le_rfl⟩

/-- All keys of a step are recorded, also those that are recorded several times. -/
theorem Remembers.record (remembers : t.Remembers records) (last : ∀ r ∈ records, r.2 ≤ step) :
    (t.record keys step).Remembers (records ++ keys.map fun key => (key, step)) := by
  induction keys generalizing t records with
  | nil =>
    rw [Tabu.record, List.foldl_nil, List.map_nil, List.append_nil, List.append_nil]
    exact remembers
  | cons key rest ih =>
    have one : (t.record [key] step).Remembers (records ++ [(key, step)]) :=
      remembers.recordOne last
    have rest := ih one fun r member => by
      rcases List.mem_append.1 member with member | new
      · exact last r member
      · rw [List.mem_singleton.1 new]
    rwa [List.append_assoc, List.singleton_append, ← record_cons] at rest

omit [BEq K] [EquivBEq K] in
/-- What is too old stands in front of what is not. -/
theorem mem_takeWhile_isOver (sorted : records.Pairwise fun r r' => r.2 ≤ r'.2) {r : K × ℕ}
    (member : r ∈ records) (old : isOver size step r = true) :
    r ∈ records.takeWhile (isOver size step) := by
  induction records with
  | nil => cases member
  | cons first rest ih =>
    obtain ⟨later, sorted⟩ := List.pairwise_cons.1 sorted
    rcases List.mem_cons.1 member with rfl | member
    · simp [old]
    · rw [List.takeWhile_cons_of_pos (isOver_mono (later r member) old)]
      exact List.mem_cons_of_mem _ (ih sorted member)

omit [BEq K] [EquivBEq K] in
theorem dropWhile_isOver (sorted : records.Pairwise fun r r' => r.2 ≤ r'.2) :
    records.dropWhile (isOver size step) = records.filter fun r => !isOver size step r := by
  induction records with
  | nil => rfl
  | cons first rest ih =>
    obtain ⟨later, sorted⟩ := List.pairwise_cons.1 sorted
    cases old : isOver size step first with
    | true =>
      rw [List.dropWhile_cons_of_pos old, ih sorted, List.filter_cons_of_neg (by simp [old])]
    | false =>
      have young : ∀ r ∈ first :: rest, (!isOver size step r) = true := by
        refine List.forall_mem_cons.2 ⟨by simp [old], fun r member => ?_⟩
        rw [Bool.not_eq_true']
        exact Bool.eq_false_iff.2 fun old' => by simp [isOver_mono (later r member) old'] at old
      rw [List.dropWhile_cons_of_neg (by simp [old]), List.filter_eq_self.2 young]

omit [EquivBEq K] in
/-- When a step begins, the recordings that are too old for it are forgotten, and no others. -/
theorem Remembers.stepStarted (remembers : t.Remembers records) :
    (t.stepStarted step).Remembers (records.filter fun r => !isOver t.size step r) := by
  have expired := expire_eq t.size step t.latest t.sequence
  rw [remembers.sequence] at expired
  refine ⟨?_, remembers.sorted.filter _, fun e member => ?_, fun r member => ?_⟩
  · rw [Tabu.stepStarted, remembers.sequence, expired]
    exact dropWhile_isOver remembers.sorted
  · rw [Tabu.stepStarted, remembers.sequence, expired] at member
    obtain ⟨known, fresh⟩ := List.mem_filter.1 member
    obtain ⟨r, recorded, same, at_⟩ := remembers.recorded e known
    refine ⟨r, List.mem_filter.2 ⟨recorded, ?_⟩, same, at_⟩
    rw [Bool.not_eq_true', List.any_eq_false] at fresh
    rw [Bool.not_eq_true']
    exact Bool.eq_false_iff.2 fun old =>
      fresh r (mem_takeWhile_isOver remembers.sorted recorded old) (by simp [same, at_])
  · obtain ⟨recorded, young⟩ := List.mem_filter.1 member
    obtain ⟨e, known, same, later⟩ := remembers.known r recorded
    refine ⟨e, ?_, same, later⟩
    rw [Tabu.stepStarted, remembers.sequence, expired]
    refine List.mem_filter.2 ⟨known, ?_⟩
    rw [Bool.not_eq_true', List.any_eq_false]
    intro r' dropped alike
    have at_ : r'.2 = e.2 := eq_of_beq (Bool.and_eq_true_iff.1 alike).2
    have old := isOver_mono (later.trans at_.ge) (List.mem_takeWhile_imp dropped)
    simp [old] at young

/-- The list has been told of the steps, in each of which some keys were recorded or none. It holds
the recordings that were not too old for the step that began last. -/
def Recalls (t : Tabu K) (steps : List (List K)) (begun : ℕ) : Prop :=
  ∃ records, t.Remembers records ∧ ∀ r, r ∈ records ↔
    (∃ keys, steps[r.2]? = some keys ∧ r.1 ∈ keys) ∧ begun ≤ r.2 + t.size

omit [EquivBEq K] in
theorem recalls_clear (t : Tabu K) : t.clear.Recalls [] 0 :=
  ⟨[], t.remembers_clear, fun r => by simp⟩

omit [EquivBEq K] in
/-- A step begins after those that were completed. -/
theorem Recalls.stepStarted (recalls : t.Recalls steps begun) (later : begun ≤ step)
    (fits : step ≤ Count.max) : (t.stepStarted step).Recalls steps step := by
  obtain ⟨records, remembers, known⟩ := recalls
  refine ⟨_, remembers.stepStarted, fun r => ?_⟩
  rw [List.mem_filter, known, Bool.not_eq_true', isOver_iff fits, and_assoc]
  exact and_congr_right fun _ => and_iff_right_of_imp later.trans

/-- A step in which keys were recorded is completed. -/
theorem Recalls.record (recalls : t.Recalls steps steps.length) :
    (t.record keys steps.length).Recalls (steps ++ [keys]) steps.length := by
  obtain ⟨records, remembers, known⟩ := recalls
  have earlier (r : K × ℕ) (member : r ∈ records) : r.2 < steps.length := by
    obtain ⟨⟨keys, there, -⟩, -⟩ := (known r).1 member
    exact (List.getElem?_eq_some_iff.1 there).1
  refine ⟨_, remembers.record fun r member => (earlier r member).le, fun r => ?_⟩
  rw [List.mem_append]
  by_cases before : r.2 < steps.length
  · rw [List.getElem?_append_left before, known]
    refine or_iff_left fun new => ?_
    obtain ⟨key, -, rfl⟩ := List.mem_map.1 new
    exact absurd before (Nat.lt_irrefl _)
  · rw [List.getElem?_append_right (Nat.not_lt.1 before),
      or_iff_right fun old => before (earlier r old)]
    constructor
    · intro new
      obtain ⟨key, member, rfl⟩ := List.mem_map.1 new
      exact ⟨⟨keys, by simp, member⟩, Nat.le_add_right ..⟩
    · rintro ⟨⟨keys', there, member⟩, -⟩
      obtain ⟨last, rfl⟩ := List.getElem?_eq_some_iff.1 there
      have now : r.2 = steps.length := by simp at last; omega
      exact List.mem_map.2 ⟨r.1, by simpa using member, by rw [← now]⟩

omit [EquivBEq K] in
/-- A step in which nothing was recorded is completed. -/
theorem Recalls.skip (recalls : t.Recalls steps begun) : t.Recalls (steps ++ [[]]) begun := by
  obtain ⟨records, remembers, known⟩ := recalls
  refine ⟨records, remembers, fun r => (known r).trans (and_congr_left fun _ => ?_)⟩
  by_cases before : r.2 < steps.length
  · rw [List.getElem?_append_left before]
  · rw [List.getElem?_eq_none (Nat.not_lt.1 before),
      List.getElem?_append_right (Nat.not_lt.1 before)]
    simp [List.getElem?_singleton]

/-- In a step, keys are tabu if one of them was recorded in one of the last steps, as many as the
list remembers. -/
theorem Recalls.isTabu_iff (recalls : t.Recalls steps step) :
    t.isTabu keys = true ↔ ∃ i recorded, step ≤ i + t.size ∧ steps[i]? = some recorded ∧
      ∃ key ∈ keys, ∃ key' ∈ recorded, key == key' := by
  obtain ⟨records, remembers, known⟩ := recalls
  rw [remembers.isTabu_iff]
  constructor
  · rintro ⟨key, member, r, recorded, same⟩
    obtain ⟨⟨keys', there, member'⟩, young⟩ := (known r).1 recorded
    exact ⟨r.2, keys', young, there, key, member, r.1, member', same⟩
  · rintro ⟨i, recorded, young, there, key, member, key', member', same⟩
    exact ⟨key, member, (key', i), (known _).2 ⟨⟨recorded, there, member'⟩, young⟩, same⟩

end Tabu

/-! ## Acceptors that look at recent steps -/

/-- What a list of keys is about. -/
inductive TabuKind where
  | entity
  | value
  | move
  | undoMove

namespace TabuKind

variable {S : Type} {sh : Shape}

/-- The type of keys. -/
def Key (S : Type) : TabuKind → Type
  | entity | value => PlanningRef
  | move | undoMove => Move S

instance : (k : TabuKind) → BEq (k.Key S)
  | entity | value => inferInstanceAs (BEq PlanningRef)
  | move | undoMove => inferInstanceAs (BEq (Move S))

instance : (k : TabuKind) → EquivBEq (k.Key S)
  | entity | value => inferInstanceAs (EquivBEq PlanningRef)
  | move | undoMove => inferInstanceAs (EquivBEq (Move S))

/-- The keys of a candidate. -/
def keys (m : Move S) : (k : TabuKind) → List (k.Key S)
  | entity => m.planningEntities
  | value => m.planningValues
  | move | undoMove => [m]

/-- The keys that a step records in which a move was made. -/
def recorded (made : Acceptor.Made S sh) : (k : TabuKind) → List (k.Key S)
  | entity => made.move.planningEntities
  | value => made.move.planningValues
  | move => [made.move]
  | undoMove => [made.undo]

/-- The acceptor that looks at such a list. -/
def acceptor : (k : TabuKind) → Tabu (k.Key S) → Acceptor S sh
  | entity, t => .entityTabu t
  | value, t => .valueTabu t
  | move, t => .moveTabu t
  | undoMove, t => .undoMoveTabu t

variable (k : TabuKind) (t : Tabu (k.Key S))

theorem phaseStarted_acceptor (starting : Score sh) :
    (k.acceptor t).phaseStarted starting = .ok (k.acceptor t.clear) := by
  cases k <;> rfl

theorem stepStarted_acceptor (step : StepContext sh) :
    (k.acceptor t).stepStarted step = k.acceptor (t.stepStarted step.index) := by
  cases k <;> rfl

theorem stepEnded_acceptor (made : Acceptor.Made S sh) :
    (k.acceptor t).stepEnded made = k.acceptor (t.record (k.recorded made) made.index) := by
  cases k <;> rfl

theorem accepts_acceptor (m : Move S) (score : Score sh) (step : StepContext sh)
    (g : Random.Generator) : (k.acceptor t).accepts m score step g =
      .ok (t.accepts (k.keys m) (decide (step.best < score)), g) := by
  cases k <;> rfl

end TabuKind

namespace Acceptor

variable {S : Type} {sh : Shape} {a b part : Acceptor S sh}

/-- The part of an acceptor at the end of a path through composites. -/
def part? : List ℕ → Acceptor S sh → Option (Acceptor S sh)
  | [], a => some a
  | i :: path, composite parts => parts[i]?.bind (part? path)
  | _ :: _, _ => none

theorem part?_composite (i : ℕ) (path : List ℕ) (parts : List (Acceptor S sh)) :
    (composite parts).part? (i :: path) = parts[i]?.bind (part? path) := rfl

theorem part?_stepStarted (step : StepContext sh) (path : List ℕ) (a : Acceptor S sh) :
    (a.stepStarted step).part? path = (a.part? path).map (stepStarted step) := by
  induction path generalizing a with
  | nil => rfl
  | cons i path ih =>
    cases a with
    | composite parts =>
      rw [stepStarted, allStepStarted_eq, part?_composite, part?_composite, List.getElem?_map]
      cases parts[i]? with
      | none => rfl
      | some part => exact ih part
    | _ => rfl

theorem part?_stepEnded (made : Made S sh) (path : List ℕ) (a : Acceptor S sh) :
    (a.stepEnded made).part? path = (a.part? path).map (stepEnded made) := by
  induction path generalizing a with
  | nil => rfl
  | cons i path ih =>
    cases a with
    | composite parts =>
      rw [stepEnded, allStepEnded_eq, part?_composite, part?_composite, List.getElem?_map]
      cases parts[i]? with
      | none => rfl
      | some part => exact ih part
    | _ => rfl

theorem exists_getElem?_allPhaseStarted {starting : Score sh} {as bs : List (Acceptor S sh)}
    (begun : allPhaseStarted starting as = .ok bs) {i : ℕ} (there : as[i]? = some a) :
    ∃ b, a.phaseStarted starting = .ok b ∧ bs[i]? = some b := by
  induction as generalizing bs i with
  | nil => cases there
  | cons first rest ih =>
    rw [allPhaseStarted] at begun
    obtain ⟨first', begunFirst, begun⟩ := PlanSearch.andThen_eq_ok.1 begun
    obtain ⟨rest', begunRest, same⟩ := PlanSearch.andThen_eq_ok.1 begun
    obtain rfl := Except.ok.inj same
    cases i with
    | zero =>
      obtain rfl := Option.some.inj there
      exact ⟨first', begunFirst, rfl⟩
    | succ i => exact ih begunRest there

/-- All parts begin a phase. -/
theorem exists_part?_phaseStarted {starting : Score sh} {path : List ℕ}
    (begun : a.phaseStarted starting = .ok b) (there : a.part? path = some part) :
    ∃ part', part.phaseStarted starting = .ok part' ∧ b.part? path = some part' := by
  induction path generalizing a b with
  | nil =>
    obtain rfl := Option.some.inj there
    exact ⟨b, begun, rfl⟩
  | cons i path ih =>
    cases a with
    | composite parts =>
      rw [phaseStarted] at begun
      obtain ⟨parts', all, rfl⟩ : ∃ parts', allPhaseStarted starting parts = .ok parts' ∧
          composite parts' = b := by
        cases all : allPhaseStarted starting parts with
        | error e =>
          rw [all] at begun
          cases begun
        | ok parts' =>
          rw [all] at begun
          exact ⟨parts', rfl, Except.ok.inj begun⟩
      obtain ⟨inner, found, there⟩ := Option.bind_eq_some_iff.1 there
      obtain ⟨inner', begunInner, found'⟩ := exists_getElem?_allPhaseStarted all found
      obtain ⟨part', begunPart, there'⟩ := ih begunInner there
      refine ⟨part', begunPart, ?_⟩
      rw [part?_composite, found']
      exact there'
    | _ => cases there

theorem exists_accepts_of_mem {m : Move S} {score : Score sh} {step : StepContext sh}
    {parts : List (Acceptor S sh)} {g g' : Random.Generator}
    (accepted : doAllAccept m score step g parts = .ok (true, g')) (member : a ∈ parts) :
    ∃ g₁ g₂, a.accepts m score step g₁ = .ok (true, g₂) := by
  induction parts generalizing g with
  | nil => cases member
  | cons first rest ih =>
    rw [doAllAccept] at accepted
    split at accepted
    · cases accepted
    · rename_i g₁ acceptedFirst
      rcases List.mem_cons.1 member with rfl | member
      · exact ⟨g, g₁, acceptedFirst⟩
      · exact ih accepted member
    · cases accepted

/-- What is accepted is accepted by all parts. -/
theorem exists_accepts_part? {m : Move S} {score : Score sh} {step : StepContext sh}
    {g g' : Random.Generator} {path : List ℕ}
    (accepted : a.accepts m score step g = .ok (true, g')) (there : a.part? path = some part) :
    ∃ g₁ g₂, part.accepts m score step g₁ = .ok (true, g₂) := by
  induction path generalizing a g g' with
  | nil =>
    obtain rfl := Option.some.inj there
    exact ⟨g, g', accepted⟩
  | cons i path ih =>
    cases a with
    | composite parts =>
      rw [accepts] at accepted
      obtain ⟨inner, found, there⟩ := Option.bind_eq_some_iff.1 there
      obtain ⟨g₁, g₂, accepted⟩ := exists_accepts_of_mem accepted (List.mem_of_getElem? found)
      exact ih accepted there
    | _ => cases there

end Acceptor

end PlanSearch
