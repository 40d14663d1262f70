import PlanSearch.Proofs.Chain.Footprint
import PlanSearch.Proofs.Move.Undo

/-!
# What doable says about a move

A move that is not composed is doable exactly when applying it is not refused and changes the
solution. A composite is judged by its parts as if each came first. That settles the negative case:
if nothing in it is doable, nothing is written. It does not settle the other one: the parts of a
doable composite may undo one another, or one may be refused after the others. What a composite does
is what its innermost parts do one after the other.
-/

namespace PlanSearch

namespace Move

variable {S : Type} {vars : Variables S} {v : ChainedVariable S} {m undo : Move S}
variable {parts undos rest : List (Move S)} {run : SubChain} {target : Option Handle}
variable {reversing : Bool} {s t : S}

/-! ## Innermost parts -/

mutual

/-- The parts of a move that are not composed, in the order in which they are applied. -/
def leaves : Move S → List (Move S)
  | .change v e target => [.change v e target]
  | .chainedChange v e target => [.chainedChange v e target]
  | .changePart v run target => [.changePart v run target]
  | .reverseChangePart v run target => [.reverseChangePart v run target]
  | .composite parts => leavesOfAll parts

/-- The innermost parts of several moves. -/
def leavesOfAll : List (Move S) → List (Move S)
  | [] => []
  | m :: rest => leaves m ++ leavesOfAll rest

end

theorem leavesOfAll_eq_flatMap (parts : List (Move S)) :
    leavesOfAll parts = parts.flatMap leaves := by
  induction parts with
  | nil => rfl
  | cons m rest ih => rw [leavesOfAll, List.flatMap_cons, ih]

/-- Applies moves one after the other until one is refused. -/
def through : List (Move S) → S → Except ChainError S
  | [], s => .ok s
  | m :: rest, s =>
    match (m.apply s).result with
    | .ok _ => through rest (m.apply s).solution
    | .error e => .error e

theorem through_append (ms ns : List (Move S)) (s : S) :
    through (ms ++ ns) s = (through ms s).bind (through ns) := by
  induction ms generalizing s with
  | nil => rfl
  | cons m rest ih =>
    rw [List.cons_append, through, through]
    cases (m.apply s).result with
    | error e => rfl
    | ok undo => exact ih _

/-- What a move leads to, unless it is refused. -/
def outcome (a : Applied S) : Except ChainError S := a.result.map fun _ => a.solution

theorem through_singleton (m : Move S) (s : S) : through [m] s = outcome (m.apply s) := by
  rw [through, outcome]
  cases (m.apply s).result <;> rfl

theorem outcome_applyParts
    (each : ∀ part ∈ parts, ∀ s, outcome (part.apply s) = through part.leaves s)
    (undos : List (Move S)) (s : S) :
    outcome (applyParts apply parts undos s) = through (parts.flatMap leaves) s := by
  induction parts generalizing undos s with
  | nil => rfl
  | cons part rest ih =>
    have head := each part (by simp) s
    rw [List.flatMap_cons, through_append, ← head]
    cases first : (part.apply s).result with
    | error e =>
      rw [applyParts_cons_of_error first]
      simp only [outcome, first]
      rfl
    | ok undo =>
      have tail := ih (fun m member => each m (by simp [member])) (undo :: undos)
        (part.apply s).solution
      rw [applyParts_cons_of_ok first]
      simp only [outcome, first]
      exact tail

/-- A move leads where its innermost parts lead one after the other, and is refused when one of them
is. -/
theorem outcome_apply (m : Move S) (s : S) : outcome (m.apply s) = through m.leaves s := by
  induction m using Move.induction generalizing s with
  | composite parts ih =>
    rw [apply_composite, leaves, leavesOfAll_eq_flatMap]
    exact outcome_applyParts ih [] s
  | _ => exact (through_singleton _ s).symm

theorem isDoable_iff_leaf (m : Move S) (s : S) :
    m.isDoable s ↔ ∃ leaf ∈ m.leaves, leaf.isDoable s := by
  induction m using Move.induction with
  | composite parts ih =>
    rw [isDoable, isAnyDoable_eq_any, leaves, leavesOfAll_eq_flatMap, List.any_eq_true]
    constructor
    · rintro ⟨part, member, doable⟩
      obtain ⟨leaf, inner, doable⟩ := (ih part member).1 doable
      exact ⟨leaf, List.mem_flatMap.2 ⟨part, member, inner⟩, doable⟩
    · rintro ⟨leaf, found, doable⟩
      obtain ⟨part, member, inner⟩ := List.mem_flatMap.1 found
      exact ⟨part, member, (ih part member).2 ⟨leaf, inner, doable⟩⟩
  | _ => simp [leaves]

theorem depth_of_mem_leaves (m : Move S) : ∀ leaf ∈ m.leaves, leaf.depth = 0 := by
  induction m using Move.induction with
  | composite parts ih =>
    rw [leaves, leavesOfAll_eq_flatMap]
    intro leaf found
    obtain ⟨part, member, inner⟩ := List.mem_flatMap.1 found
    exact ih part member leaf inner
  | _ =>
    intro leaf found
    rw [List.mem_singleton.1 found]
    rfl

theorem Over.of_mem_leaves (own : m.Over vars) : ∀ leaf ∈ m.leaves, leaf.Over vars := by
  induction m using Move.induction with
  | composite parts ih =>
    cases own with
    | composite all =>
      rw [leaves, leavesOfAll_eq_flatMap]
      intro leaf found
      obtain ⟨part, member, inner⟩ := List.mem_flatMap.1 found
      exact ih part member (all part member) leaf inner
  | _ =>
    intro leaf found
    rwa [List.mem_singleton.1 found]

/-! ## Moves that do nothing -/

/-- The move is accepted and writes nothing. -/
def Idles (m : Move S) (s : S) : Prop := ∃ undo, m.apply s = ⟨s, [], .ok undo⟩

/-- The move writes nothing, refused or not, and nor does its undo move. -/
structure Rests (m : Move S) (s : S) : Prop where
  solution : (m.apply s).solution = s
  silent : (m.apply s).notifications = []
  undo : ∀ undo, (m.apply s).result = .ok undo → undo.Idles s

theorem rollBack_of_idles (idle : ∀ u ∈ undos, Idles u s) : rollBack apply undos s = (s, []) := by
  induction undos with
  | nil => rfl
  | cons u rest ih =>
    obtain ⟨again, applied⟩ := idle u (by simp)
    rw [rollBack, applied]
    simp only [ih fun m member => idle m (by simp [member])]
    rfl

theorem applyParts_of_idles (idle : ∀ u ∈ parts, Idles u s) (undos : List (Move S)) :
    ∃ all, applyParts apply parts undos s = ⟨s, [], .ok all⟩ := by
  induction parts generalizing undos with
  | nil => exact ⟨_, rfl⟩
  | cons u rest ih =>
    obtain ⟨again, applied⟩ := idle u (by simp)
    have first : (u.apply s).result = .ok again := by rw [applied]
    obtain ⟨all, others⟩ := ih (fun m member => idle m (by simp [member])) (again :: undos)
    refine ⟨all, ?_⟩
    rw [applyParts_cons_of_ok first, applied]
    simp only [others]
    rfl

/-- Parts that all rest let the composite rest. The undo moves kept so far idle, so that taking
parts back writes nothing either. -/
theorem rests_parts (each : ∀ part ∈ parts, Rests part s) (idle : ∀ u ∈ undos, Idles u s) :
    (applyParts apply parts undos s).solution = s ∧
      (applyParts apply parts undos s).notifications = [] ∧
      ∀ undo, (applyParts apply parts undos s).result = .ok undo → undo.Idles s := by
  induction parts generalizing undos with
  | nil =>
    refine ⟨rfl, rfl, fun undo applied => ?_⟩
    obtain rfl := Except.ok.inj applied
    obtain ⟨all, result⟩ := applyParts_of_idles idle []
    exact ⟨all, by rw [apply_composite, result]⟩
  | cons part rest ih =>
    have here := each part (by simp)
    have others (m : Move S) (member : m ∈ rest) := each m (by simp [member])
    cases first : (part.apply s).result with
    | error e =>
      rw [applyParts_cons_of_error first, here.solution, here.silent, rollBack_of_idles idle]
      exact ⟨rfl, rfl, by rintro _ ⟨⟩⟩
    | ok undo =>
      rw [applyParts_cons_of_ok first, here.solution, here.silent]
      exact ih others (List.forall_mem_cons.2 ⟨here.undo undo first, idle⟩)

theorem rests_change (v : PlainVariable S) (e : Nat) (target : Option Nat)
    (still : (Move.change v e target).isDoable s = false) : Rests (.change v e target) s := by
  have same : v.get s e = target := by simpa [isDoable] using still
  have applied : (Move.change v e target).apply s = ⟨s, [], .ok (.change v e target)⟩ := by
    rw [apply_change, if_pos same, same]
  constructor
  · rw [applied]
  · rw [applied]
  · rw [applied]
    rintro _ ⟨⟩
    exact ⟨_, applied⟩

/-- A relocation whose plan is empty leaves a valid graph as it is, so that it takes no run of
several entities out of all chains, and its undo move plans nothing either. -/
theorem rests_relocate (lawful : v.Lawful) (valid : (v.graph s).Valid)
    {back again : Option Handle → Move S}
    (there : ∀ s, m.apply s = relocate v run target reversing back s)
    (opposite : ∀ old s, (back old).apply s =
      relocate v (run.oriented reversing) old reversing again s)
    (still : relocates v s run target reversing = false) : Rests m s := by
  cases planned : (v.graph s).planMove run target reversing with
  | error e =>
    have refused := (there s).trans (relocate_refused back planned)
    refine ⟨by rw [refused], by rw [refused], ?_⟩
    rw [refused]
    rintro _ ⟨⟩
  | ok plan =>
    have empty : plan.links = [] := by simpa [relocates, planned, SplicePlan.isEmpty] using still
    obtain ⟨placeable, g', written, moved⟩ := valid.applyPlan planned
    have same : g' = v.graph s := by
      rw [ChainGraph.applyPlan, empty] at written
      exact (Except.ok.inj written).symm
    have single : target = none → run.length = 1 := by
      rintro rfl
      have ready := valid.withdrawable placeable.entity placeable.contiguous
      exact moved.length_of_valid ready.nodup placeable.entity (same ▸ valid)
    obtain ⟨h, bs, -, forth, restored⟩ := relocate_back lawful valid single back planned
    have taken := (there s).trans (relocate_eq lawful back planned written)
    rw [empty, same, lawful.withGraph_graph] at taken
    rw [← there, taken] at forth
    injection forth with solution log
    have none : bs = [] := by
      cases bs with
      | nil => rfl
      | cons b rest => cases log
    refine ⟨by rw [taken], by rw [taken]; rfl, ?_⟩
    rw [taken]
    rintro _ ⟨⟩
    refine ⟨again target, ?_⟩
    have idle := restored again
    rw [← solution, none] at idle
    exact (opposite _ s).trans idle

/-- A move that is not doable writes nothing. -/
theorem rests_of_not_doable (lawful : ∀ v ∈ vars.chained, v.Lawful) (own : m.Over vars)
    (valid : vars.Valid s) (still : m.isDoable s = false) : Rests m s := by
  have graphs (v : ChainedVariable S) (member : v ∈ vars.chained) : (v.graph s).Valid :=
    ChainGraph.validate_eq_ok_iff.1 (valid v member)
  induction m using Move.induction with
  | change v e target => exact rests_change v e target still
  | chainedChange v e target =>
    cases own with
    | chainedChange _ _ member =>
      exact rests_relocate (lawful v member) (graphs v member) (apply_chainedChange v e target)
        (apply_chainedChange v e) still
  | changePart v run target =>
    cases own with
    | changePart _ _ member =>
      exact rests_relocate (lawful v member) (graphs v member) (apply_changePart v run target)
        (apply_changePart v run) still
  | reverseChangePart v run target =>
    cases own with
    | reverseChangePart _ _ member =>
      exact rests_relocate (lawful v member) (graphs v member)
        (apply_reverseChangePart v run target) (apply_reverseChangePart v run.reversed) still
  | composite parts ih =>
    cases own with
    | composite all =>
      rw [isDoable, isAnyDoable_eq_any, List.any_eq_false] at still
      have each (part : Move S) (member : part ∈ parts) : Rests part s :=
        ih part member (all part member) (by simpa using still part member)
      obtain ⟨solution, silent, undo⟩ := rests_parts each (List.forall_mem_nil _)
      rw [← apply_composite] at solution silent undo
      exact ⟨solution, silent, undo⟩

/-! ## Moves that do something -/

theorem relocate_ne (lawful : v.Lawful) (sound : (v.graph s).Sound)
    (back : Option Handle → Move S) (moving : relocates v s run target reversing) :
    ∃ undo, (relocate v run target reversing back s).result = .ok undo ∧
      (relocate v run target reversing back s).solution ≠ s := by
  cases planned : (v.graph s).planMove run target reversing with
  | error e => simp [relocates, planned] at moving
  | ok plan =>
    obtain ⟨g', written, -, -, changes⟩ := sound.applyPlan planned
    rw [relocate_eq lawful back planned written]
    refine ⟨_, rfl, fun same => ?_⟩
    have graph : g' = v.graph s := by rw [← same, lawful.graph_withGraph]
    cases links : plan.links with
    | nil => simp [relocates, planned, SplicePlan.isEmpty, links] at moving
    | cons link rest =>
      obtain ⟨old, new, differ⟩ := (changes link).1 (links ▸ List.mem_cons_self ..)
      rw [graph, ← old] at new
      exact differ new.symm

/-- A doable move that is not composed is not refused and changes the solution. -/
theorem changes_of_doable
    (reads : ∀ v ∈ vars.plain, ∀ s e x, vars.ranges v e → v.get (v.set s e x) e = x)
    (lawful : ∀ v ∈ vars.chained, v.Lawful) (own : m.Over vars) (valid : vars.Valid s)
    (simple : m.depth = 0) (doable : m.isDoable s) : ∃ t, outcome (m.apply s) = .ok t ∧ t ≠ s := by
  have sound (v : ChainedVariable S) (member : v ∈ vars.chained) : (v.graph s).Sound :=
    (ChainGraph.validate_eq_ok_iff.1 (valid v member)).sound
  suffices differs : ∃ undo, (m.apply s).result = .ok undo ∧ (m.apply s).solution ≠ s by
    obtain ⟨undo, applied, differ⟩ := differs
    exact ⟨_, by rw [outcome, applied]; rfl, differ⟩
  cases own with
  | @change v e target member ranges =>
    have other : v.get s e ≠ target := by simpa [isDoable] using doable
    rw [apply_change, if_neg other]
    refine ⟨_, rfl, fun same => other ?_⟩
    have read := reads v member s e target ranges
    rwa [show v.set s e target = s from same] at read
  | chainedChange e target member =>
    rw [apply_chainedChange]
    exact relocate_ne (lawful _ member) (sound _ member) _ doable
  | changePart run target member =>
    rw [apply_changePart]
    exact relocate_ne (lawful _ member) (sound _ member) _ doable
  | reverseChangePart run target member =>
    rw [apply_reverseChangePart]
    exact relocate_ne (lawful _ member) (sound _ member) _ doable
  | composite all => cases simple

/-- A move of which nothing is doable writes nothing and tells of nothing, refused or not. A move is
doable when one of its innermost parts, applied alone, is accepted and changes the solution. Whether
the whole is accepted and changes the solution is decided by all of them, one after the other. -/
theorem isDoable_iff_part (vars : Variables S)
    (reads : ∀ v ∈ vars.plain, ∀ s e x, vars.ranges v e → v.get (v.set s e x) e = x)
    (lawful : ∀ v ∈ vars.chained, v.Lawful) (m : Move S) (own : m.Over vars) (s : S)
    (valid : vars.Valid s) :
    (m.isDoable s = false → (m.apply s).solution = s ∧ (m.apply s).notifications = []) ∧
    (m.isDoable s ↔ ∃ leaf ∈ m.leaves, ∃ t, outcome (leaf.apply s) = .ok t ∧ t ≠ s) ∧
    outcome (m.apply s) = through m.leaves s ∧
    ((∃ t, outcome (m.apply s) = .ok t ∧ t ≠ s) ↔
      m.isDoable s ∧ ∃ t, through m.leaves s = .ok t ∧ t ≠ s) := by
  have still (m : Move S) (own : m.Over vars) (t : S) (ends : outcome (m.apply s) = .ok t)
      (differ : t ≠ s) : m.isDoable s := by
    by_contra idle
    have rests := rests_of_not_doable lawful own valid (Bool.eq_false_iff.2 idle)
    rw [outcome, rests.solution] at ends
    cases applied : (m.apply s).result with
    | error e => simp [applied, Except.map] at ends
    | ok undo =>
      rw [applied] at ends
      exact differ (Except.ok.inj ends).symm
  refine ⟨fun idle => ?_, ⟨fun doable => ?_, ?_⟩, outcome_apply m s, ?_⟩
  · have rests := rests_of_not_doable lawful own valid idle
    exact ⟨rests.solution, rests.silent⟩
  · obtain ⟨leaf, member, doable⟩ := (isDoable_iff_leaf m s).1 doable
    exact ⟨leaf, member, changes_of_doable reads lawful (own.of_mem_leaves leaf member) valid
      (depth_of_mem_leaves m leaf member) doable⟩
  · rintro ⟨leaf, member, t, ends, differ⟩
    have doable := still leaf (own.of_mem_leaves leaf member) t ends differ
    exact (isDoable_iff_leaf m s).2 ⟨leaf, member, doable⟩
  · rw [← outcome_apply]
    constructor
    · rintro ⟨t, ends, differ⟩
      exact ⟨still m own t ends differ, t, ends, differ⟩
    · exact And.right

end Move

namespace Necklace

/-- Colours a bead and takes the colour off again. -/
def flicker : Move Necklace :=
  .composite [.change colourOf 2 (some 7), .change colourOf 2 none]

/-- A composite may be doable and leave everything as it is. -/
theorem isDoable_iff_part_flicker : flicker.isDoable plain ∧
    ∃ t, Move.outcome (flicker.apply plain) = .ok t ∧ t = plain := by
  have known : vars.ranges colourOf 2 := (by decide : 2 < 4)
  have own : flicker.Over vars := .composite (List.forall_mem_cons.2
    ⟨.change _ (by simp [vars]) known,
      List.forall_mem_singleton.2 (.change _ (by simp [vars]) known)⟩)
  obtain ⟨-, doable, ends, -⟩ := Move.isDoable_iff_part vars
    (fun v member => (lawful_vars.plain v member).get_set) lawful_vars.chained flicker own plain
    valid_plain
  constructor
  · refine doable.2 ⟨.change colourOf 2 (some 7), .head _, _, rfl, fun same => ?_⟩
    exact absurd (congrFun (congrArg colour same) 2) (by decide)
  · have law := lawful_vars.plain colourOf (by simp [vars])
    exact ⟨colourOf.set (colourOf.set plain 2 (some 7)) 2 none, ends,
      law.set_get plain 2 (some 7) known⟩

end Necklace

end PlanSearch
