import PlanSearch.Example.Queens
import PlanSearch.Proofs.Assembly.Building
import PlanSearch.Proofs.Move.Stored

/-!
# Moves of registered variables

The moves that built selectors and placers yield give an entity a value or a run a place. On valid
chains such a move is not refused if it is doable, and it leaves no entity without a value that had
one.
-/

namespace PlanSearch

namespace ChainGraph

variable {g g' : ChainGraph} {run : SubChain} {d : Handle} {reversing : Bool}

theorem size_congr (kind : ∀ h, g'.kind? h = g.kind? h) : g'.size = g.size := by
  refine Nat.le_antisymm (not_lt.1 fun more => ?_) (not_lt.1 fun less => ?_)
  · have here : g'.contains ⟨g.size⟩ = true := decide_eq_true more
    rw [contains_iff_kind?_isSome, kind, ← contains_iff_kind?_isSome] at here
    exact absurd (of_decide_eq_true here) (lt_irrefl _)
  · have here : g.contains ⟨g'.size⟩ = true := decide_eq_true less
    rw [contains_iff_kind?_isSome, ← kind, ← contains_iff_kind?_isSome] at here
    exact absurd (of_decide_eq_true here) (lt_irrefl _)

theorem entities_congr (kind : ∀ h, g'.kind? h = g.kind? h) : g'.entities = g.entities := by
  simp only [entities, handles, size_congr kind, kind]

/-- Who is placed in a chain before a run is placed in one is so afterwards. -/
theorem Relocated.unplaced_sublist (moved : g.Relocated run (some d) reversing g') (valid : g.Valid)
    (placeable : g.Placeable run (some d)) :
    (g'.entities.filter fun h => (g'.predecessor h).isNone).Sublist
      (g.entities.filter fun h => (g.predecessor h).isNone) := by
  rw [entities_congr moved.kind]
  refine List.monotone_filter_right _ fun h free => ?_
  by_cases inside : h ∈ run.entities
  · have block : h ∈ (run.oriented reversing).entities := SubChain.mem_oriented.2 inside
    rw [moved.predecessor_of_mem block] at free
    have placed := isSome_predecessorIn (x := d) block
    rw [Option.isNone_iff_eq_none] at free
    rw [free] at placed
    cases placed
  · have same := moved.isSome_predecessor valid placeable inside
    rw [← Option.not_isSome] at free ⊢
    rwa [← same]

end ChainGraph

namespace Assembly

variable {S : Type}

/-- The variables that moves of a registry write, of entities that it ranges over. -/
def Registry.written (r : Registry S) : Variables S where
  plain := r.vars.filterMap fun
    | .plain v _ _ => some v
    | .chained .. => none
  chained := r.vars.filterMap fun
    | .plain .. => none
    | .chained v _ _ => some v
  ranges _ := r.Ranges

variable {r : Registry S} {m : Move S} {s : S}

theorem Registry.mem_plain {v : PlainVariable S} {entityCount valueCount : S → Nat}
    (member : .plain v entityCount valueCount ∈ r.vars) : v ∈ r.written.plain :=
  List.mem_filterMap.2 ⟨_, member, rfl⟩

theorem Registry.mem_chained {v : ChainedVariable S} {entities values : S → List Handle}
    (member : .chained v entities values ∈ r.vars) : v ∈ r.written.chained :=
  List.mem_filterMap.2 ⟨_, member, rfl⟩

end Assembly

namespace Move

variable {S : Type}

/-- The move places a run of a chained variable after an element. -/
structure Relocates (m : Move S) (v : ChainedVariable S) (run : SubChain) (d : Handle)
    (reversing : Bool) : Prop where
  apply : ∃ back, ∀ s, m.apply s = relocate v run (some d) reversing back s
  isDoable : ∀ s, m.isDoable s = relocates v s run (some d) reversing
  isOver : ∀ vars : Variables S, v ∈ vars.chained → m.Over vars
  keepsRuns : m.KeepsRuns

variable {v : ChainedVariable S} {m : Move S} {run : SubChain} {d : Handle} {reversing : Bool} {s : S}

theorem relocates_chainedChange (v : ChainedVariable S) (e d : Handle) :
    (Move.chainedChange v e (some d)).Relocates v (.single e) d false where
  apply := ⟨_, apply_chainedChange v e (some d)⟩
  isDoable _ := by rw [Move.isDoable]
  isOver _ member := .chainedChange e (some d) member
  keepsRuns := .chainedChange v e (some d)

theorem relocates_partMove (v : ChainedVariable S) (run : SubChain) (d : Handle) (reversing : Bool) :
    (Selector.partMove v run d reversing).Relocates v run d reversing := by
  cases reversing with
  | false => exact ⟨⟨_, apply_changePart v run (some d)⟩, fun _ => by rw [Selector.partMove]; rfl,
      fun _ member => .changePart run (some d) member, .changePart v nofun⟩
  | true => exact ⟨⟨_, apply_reverseChangePart v run (some d)⟩, fun _ => by
      rw [Selector.partMove]; rfl, fun _ member => .reverseChangePart run (some d) member,
      .reverseChangePart v nofun⟩

namespace Relocates

variable (by_ : m.Relocates v run d reversing) (lawful : v.Lawful) (valid : (v.graph s).Valid)
include by_ lawful valid

/-- What a relocation that is planned leads to. -/
theorem apply_eq {plan : SplicePlan}
    (planned : (v.graph s).planMove run (some d) reversing = .ok plan) :
    ∃ g' undo, (m.apply s).solution = v.withGraph s g' ∧ (m.apply s).result = .ok undo ∧
      (v.graph s).Placeable run (some d) ∧ (v.graph s).Relocated run (some d) reversing g' := by
  obtain ⟨back, apply⟩ := by_.apply
  obtain ⟨placeable, g', written, moved⟩ := valid.applyPlan planned
  have made := relocate_eq lawful back planned written
  refine ⟨g', back plan.oldPredecessor, ?_, ?_, placeable, moved⟩ <;> rw [apply, made]

theorem exists_undo (doable : m.isDoable s = true) : ∃ undo, (m.apply s).result = .ok undo := by
  rw [by_.isDoable, relocates] at doable
  cases planned : (v.graph s).planMove run (some d) reversing with
  | error e =>
    rw [planned] at doable
    cases doable
  | ok plan =>
    obtain ⟨g', undo, -, applied, -⟩ := by_.apply_eq lawful valid planned
    exact ⟨undo, applied⟩

/-- A relocation that is not refused replaces the graph by one in which everyone who was placed in
a chain still is. -/
theorem solution_eq {undo : Move S} (applied : (m.apply s).result = .ok undo) :
    ∃ g', (m.apply s).solution = v.withGraph s g' ∧
      (g'.entities.filter fun h => (g'.predecessor h).isNone).Sublist
        ((v.graph s).entities.filter fun h => ((v.graph s).predecessor h).isNone) := by
  cases planned : (v.graph s).planMove run (some d) reversing with
  | error e =>
    obtain ⟨back, apply⟩ := by_.apply
    rw [apply, relocate_refused back planned] at applied
    cases applied
  | ok plan =>
    obtain ⟨g', undo, solution, -, placeable, moved⟩ := by_.apply_eq lawful valid planned
    exact ⟨g', solution, moved.unplaced_sublist valid placeable⟩

end Relocates

end Move

namespace Assembly

variable {S : Type} {r : Registry S} {m : Move S} {s : S}

/-- A move of a registry gives an entity of a plain variable a value, or places a run of a chained
one. -/
theorem Registry.Offers.cases (offered : r.Offers m) :
    (∃ v entityCount valueCount e x, RegisteredVariable.plain v entityCount valueCount ∈ r.vars ∧
      r.Ranges e ∧ m = .change v e (some x)) ∨
    ∃ v entities values run d reversing, RegisteredVariable.chained v entities values ∈ r.vars ∧
      m.Relocates v run d reversing := by
  obtain ⟨v, member, offered⟩ := offered
  cases v with
  | plain v entityCount valueCount =>
    obtain ⟨e, x, ranges, rfl⟩ := offered
    exact .inl ⟨v, _, _, e, x, member, ranges, rfl⟩
  | chained v entities values =>
    obtain ⟨e, d, rfl⟩ | ⟨run, d, reversing, rfl⟩ := offered
    · exact .inr ⟨v, _, _, _, d, _, member, Move.relocates_chainedChange v e d⟩
    · exact .inr ⟨v, _, _, _, d, _, member, Move.relocates_partMove v run d reversing⟩

theorem Registry.Offers.over (offered : r.Offers m) : m.Over r.written := by
  obtain ⟨v, _, _, e, x, member, ranges, rfl⟩ | ⟨v, _, _, run, d, reversing, member, by_⟩ :=
    offered.cases
  · exact .change (some x) (Registry.mem_plain member) ranges
  · exact by_.isOver _ (Registry.mem_chained member)

theorem Registry.Offers.keepsRuns (offered : r.Offers m) : m.KeepsRuns := by
  obtain ⟨v, _, _, e, x, member, ranges, rfl⟩ | ⟨v, _, _, run, d, reversing, member, by_⟩ :=
    offered.cases
  · exact .change v e (some x)
  · exact by_.keepsRuns

/-- A doable move is not refused, whatever it was selected for. -/
theorem Registry.Offers.exists_undo (offered : r.Offers m) (lawful : r.written.Lawful)
    (valid : r.written.Valid s) (doable : m.isDoable s = true) :
    ∃ undo, (m.apply s).result = .ok undo := by
  obtain ⟨v, _, _, e, x, member, ranges, rfl⟩ | ⟨v, _, _, run, d, reversing, member, by_⟩ :=
    offered.cases
  · rw [Move.apply_change]
    split <;> exact ⟨_, rfl⟩
  · have known := Registry.mem_chained member
    exact by_.exists_undo (lawful.chained v known)
      (ChainGraph.validate_eq_ok_iff.1 (valid v known)) doable

/-! ## Entities without a value -/

namespace RegisteredVariable

/-- What the variable reads from a solution. -/
def reading : RegisteredVariable S → S → (Nat → Option Nat) ⊕ ChainGraph
  | .plain v _ _, s => .inl (v.get s)
  | .chained v _ _, s => .inr (v.graph s)

/-- The writes of the variable. -/
def Writes : RegisteredVariable S → (S → S) → Prop
  | .plain v _ _, f => ∃ e x, f = fun s => v.set s e x
  | .chained v _ _, f => ∃ g, f = fun s => v.withGraph s g

/-- The variable has as many entities after a change as before it. -/
def Counts (f : S → S) : RegisteredVariable S → Prop
  | .plain _ entityCount _ => ∀ s, entityCount (f s) = entityCount s
  | .chained .. => True

end RegisteredVariable

/-- Every entity of a plain variable has a place of its own in the solution. Two variables are one
and the same, or no write of one is seen by the other. Neither writes nor the stored score change a
number of entities. -/
structure Registry.Framed {sh : Shape} (r : Registry S) (p : Problem S sh) : Prop where
  entity : ∀ v entityCount valueCount, .plain v entityCount valueCount ∈ r.vars →
    ∀ s e x e', e' ≠ e → v.get (v.set s e x) e' = v.get s e'
  apart : ∀ v ∈ r.vars, ∀ w ∈ r.vars,
    v.reading = w.reading ∨ ∀ f, v.Writes f → ∀ s, w.reading (f s) = w.reading s
  counts : ∀ v ∈ r.vars, ∀ w ∈ r.vars, ∀ f, v.Writes f → w.Counts f
  scored : ∀ x, ∀ v ∈ r.vars, v.Counts fun s => p.withScore s x

variable {sh : Shape} {p : Problem S sh}

/-- All entities without a value had none before. -/
def Registry.Keeps (r : Registry S) (s s' : S) : Prop :=
  ∀ v ∈ r.vars, ((placer v).openEntities s').Sublist ((placer v).openEntities s)

theorem RegisteredVariable.openEntities_congr {v : RegisteredVariable S} {f : S → S}
    (counts : v.Counts f) (same : v.reading (f s) = v.reading s) :
    (placer v).openEntities (f s) = (placer v).openEntities s := by
  cases v with
  | plain v entityCount valueCount =>
    have get : v.get (f s) = v.get s := Sum.inl.inj same
    simp only [placer, Placer.openEntities, get, counts s]
  | chained v entities values =>
    have graph : v.graph (f s) = v.graph s := Sum.inr.inj same
    simp only [placer, Placer.openEntities, graph]

/-- The stored score has nothing to do with which entities have a value. -/
theorem Registry.Framed.keeps_bare (framed : r.Framed p) (blind : r.written.Blind p) {s s' : S} :
    r.Keeps (p.bare s) (p.bare s') ↔ r.Keeps s s' := by
  refine forall₂_congr fun v member => ?_
  have same (s : S) : (placer v).openEntities (p.bare s) = (placer v).openEntities s := by
    refine RegisteredVariable.openEntities_congr (framed.scored none v member) ?_
    cases v with
    | plain v entityCount valueCount =>
      exact congrArg Sum.inl (funext fun e => blind.get v (Registry.mem_plain member) s none e)
    | chained v entities values =>
      exact congrArg Sum.inr (blind.graph v (Registry.mem_chained member) s none)
  rw [same, same]

theorem Registry.Offers.keeps (offered : r.Offers m) (lawful : r.written.Lawful) (framed : r.Framed p)
    (valid : r.written.Valid s) {undo : Move S} (applied : (m.apply s).result = .ok undo) :
    r.Keeps s (m.apply s).solution := by
  intro w among
  obtain ⟨v, _, _, e, x, member, ranges, rfl⟩ | ⟨v, _, _, run, d, reversing, member, by_⟩ :=
    offered.cases
  · by_cases same : v.get s e = some x
    · rw [Move.apply_change, if_pos same]
    rw [Move.apply_change, if_neg same]
    have counts := framed.counts _ member w among _ ⟨e, some x, rfl⟩
    obtain one | apart := framed.apart _ member w among
    · cases w with
      | plain w entityCount valueCount =>
        have get (s : S) : w.get s = v.get s := (Sum.inl.inj (congrFun one s)).symm
        simp only [placer, Placer.openEntities, get, counts s]
        refine List.monotone_filter_right _ fun e' free => ?_
        by_cases self : e' = e
        · rw [self, (lawful.plain v (Registry.mem_plain member)).get_set _ _ _ ranges] at free
          cases free
        · rwa [framed.entity v _ _ member s e (some x) e' self] at free
      | chained w entities values => cases congrFun one s
    · rw [RegisteredVariable.openEntities_congr counts (apart _ ⟨e, some x, rfl⟩ s)]
  · have known := Registry.mem_chained member
    obtain ⟨g', solution, sublist⟩ := by_.solution_eq (lawful.chained v known)
      (ChainGraph.validate_eq_ok_iff.1 (valid v known)) applied
    rw [solution]
    have counts := framed.counts _ member w among _ ⟨g', rfl⟩
    obtain one | apart := framed.apart _ member w among
    · cases w with
      | plain w entityCount valueCount => cases congrFun one s
      | chained w entities values =>
        have graph (s : S) : w.graph s = v.graph s := (Sum.inr.inj (congrFun one s)).symm
        simp only [placer, Placer.openEntities, graph,
          (lawful.chained v known).graph_withGraph]
        exact sublist.map _
    · rw [RegisteredVariable.openEntities_congr counts (apart _ ⟨g', rfl⟩ s)]

end Assembly

/-! ## Necklaces with a score -/

/-- A necklace and the score that was stored with it. -/
structure ScoredNecklace where
  necklace : Necklace
  score : Option (Score .simple)

namespace ScoredNecklace

open Assembly

def colour : PlainVariable ScoredNecklace where
  name := "colour"
  descriptorIndex := 0
  get s := Necklace.colourOf.get s.necklace
  set s e x := { s with necklace := Necklace.colourOf.set s.necklace e x }

def previous : ChainedVariable ScoredNecklace where
  name := "previous"
  descriptorIndex := 0
  graph s := s.necklace.graph
  withGraph s graph := { s with necklace := Necklace.previous.withGraph s.necklace graph }

/-- Strings and beads have one of two colours, and beads can be placed after all of them. -/
def registry : Registry ScoredNecklace where
  vars := [.plain colour (fun _ => 4) (fun _ => 2),
    .chained previous (fun s => s.necklace.graph.entities) (fun s => s.necklace.graph.handles)]

/-- The more there is of the second colour the better. -/
def problem : Problem ScoredNecklace .simple where
  score := ScoredNecklace.score
  withScore s score := { s with score }
  isInitialized s := (List.range 4).all fun e => (s.necklace.colour e).isSome
  calculate s := (Level.checked ((List.range 4).countP fun e => s.necklace.colour e = some 1)).map
    Score.ofLevel

/-- Two beads on the first of two strings, without colours. -/
def plain : ScoredNecklace := ⟨Necklace.plain, none⟩

theorem lawful_problem : problem.Lawful where
  score_withScore _ _ := rfl
  withScore_withScore _ _ _ := rfl
  withScore_score _ := rfl
  isInitialized_withScore _ _ := rfl
  calculate_withScore _ _ := rfl

theorem overflows_calculate (s : ScoredNecklace) : Overflows (problem.calculate s) :=
  .map _ (Level.overflows_checked _)

/-- There are four strings and beads, and fewer colours. -/
theorem lt_of_ranges {i : ℕ} (ranges : registry.Ranges i) : i < 4 := by
  obtain ⟨v, entityCount, valueCount, member, s, below⟩ := ranges
  rcases List.mem_cons.1 member with same | other
  · obtain ⟨-, rfl, rfl⟩ := RegisteredVariable.plain.inj same
    exact below.elim id fun few => few.trans (by decide : 2 < 4)
  · cases List.mem_singleton.1 other

theorem lawful_written : registry.written.Lawful := by
  have lawful := Necklace.lawful_colourOf
  refine .pair ⟨fun s e x ranges => lawful.get_set s.necklace e x (lt_of_ranges ranges),
    fun s e x ranges => ?_⟩ ⟨fun _ _ => rfl, fun _ => rfl, fun _ _ _ => rfl⟩ fun _ _ _ => rfl
  exact congrArg (ScoredNecklace.mk · s.score)
    (lawful.set_get s.necklace e x (lt_of_ranges ranges))

theorem blind_written : registry.written.Blind problem := by
  refine ⟨fun v member => ?_, fun v member => ?_, fun v member => ?_, fun v member => ?_⟩ <;>
    obtain rfl := List.mem_singleton.1 member
  · exact fun _ _ _ => rfl
  · exact fun _ _ _ _ => rfl
  · exact fun _ _ => rfl
  · exact fun _ _ _ => rfl

theorem valid_plain : registry.written.Valid plain := by
  intro c member
  obtain rfl := List.mem_singleton.1 member
  decide

/-- Colours do not see chains, and chains do not see colours. -/
theorem framed_registry : registry.Framed problem := by
  have all {P : RegisteredVariable ScoredNecklace → Prop} (first : P registry.vars[0])
      (second : P registry.vars[1]) : ∀ v ∈ registry.vars, P v :=
    List.forall_mem_cons.2 ⟨first, List.forall_mem_singleton.2 second⟩
  refine ⟨?_, all (all (.inl rfl) (.inr ?_)) (all (.inr ?_) (.inl rfl)), ?_, fun x => ?_⟩
  · intro v entityCount valueCount member s e x e' other
    rcases List.mem_cons.1 member with same | chained
    · obtain ⟨rfl, -, -⟩ := RegisteredVariable.plain.inj same
      exact Necklace.colour_set_of_ne _ _ other
    · cases List.mem_singleton.1 chained
  · rintro _ ⟨e, x, rfl⟩ s
    rfl
  · rintro _ ⟨g, rfl⟩ s
    rfl
  · exact all (all (fun _ _ _ => rfl) fun _ _ => trivial)
      (all (fun _ _ _ => rfl) fun _ _ => trivial)
  · exact all (fun _ => rfl) trivial

/-- One step with runs of beads. -/
def restringing : Config.LocalSearchSettings where
  moveSelector := some (.subChainChange { variableName := some "previous", minimumSize := some 1 })
  termination := some (.node { steps := some 1 } [])
  selectedLimit := some 1

/-- Gives everything a colour, and then places a run of beads. -/
def settings : Config.SolverSettings where
  mode := .reproducible
  seed := some 2
  phases := [.construction { variableName := some "colour" }, .localSearch restringing]

def around : Surroundings ScoredNecklace .simple := { problem, patience := 20 }

theorem exists_answer : ∃ best, Assembly.solve registry around 0 settings plain = .ok (.ok best) := by
  have answered : ((Assembly.solve registry around 0 settings plain).toOption.bind
      Except.toOption).isSome = true := by decide +kernel
  rcases solved : Assembly.solve registry around 0 settings plain with e | e | best
  · rw [solved] at answered
    cases answered
  · rw [solved] at answered
    cases answered
  · exact ⟨best, rfl⟩

end ScoredNecklace

/-! ## Boards of queens -/

namespace Example

open Assembly

/-- A board with as many queens as rows. -/
def Board (n : ℕ) : Type := { s : Queens // s.queens.size = n ∧ s.rowCount = n }

namespace Board

variable {n : ℕ}

/-- The row of a queen of the board. -/
def row (n : ℕ) : PlainVariable (Board n) where
  name := Queens.row.name
  descriptorIndex := Queens.row.descriptorIndex
  get s := Queens.row.get s.1
  set s e x := ⟨Queens.row.set s.1 e x, Array.size_modify.trans s.2.1, s.2.2⟩

/-- Every queen may be placed on every row. -/
def registry (n : ℕ) : Registry (Board n) where
  vars := [.plain (row n) (fun s => s.1.queens.size) fun s => s.1.rowCount]

/-- The fewer conflicts the better. -/
def problem (n : ℕ) : Problem (Board n) .simple where
  score s := Queens.problem.score s.1
  withScore s x := ⟨Queens.problem.withScore s.1 x, s.2⟩
  isInitialized s := Queens.problem.isInitialized s.1
  calculate s := Queens.problem.calculate s.1

theorem lt_of_ranges {i : ℕ} (ranges : (registry n).Ranges i) : i < n := by
  obtain ⟨v, entityCount, valueCount, member, s, below⟩ := ranges
  obtain ⟨-, rfl, rfl⟩ := RegisteredVariable.plain.inj (List.mem_singleton.1 member)
  exact below.elim (fun few => few.trans_eq s.2.1) fun few => few.trans_eq s.2.2

/-- Rows are kept in an array, and only queens of the board have one. -/
theorem lawful_row (n : ℕ) : (row n).Lawful (· < n) := by
  refine ⟨fun s e x known => ?_, fun s e x known => Subtype.ext ?_⟩
  · have inside : e < s.1.queens.size := known.trans_eq s.2.1.symm
    change ((s.1.queens.modify e ({ · with row := x }))[e]?).bind Queen.row = x
    simp [inside, Array.getElem_modify]
  · have inside : e < s.1.queens.size := known.trans_eq s.2.1.symm
    have back : (s.1.queens.modify e ({ · with row := x })).modify e
        ({ · with row := (s.1.queens[e]?).bind Queen.row }) = s.1.queens := by
      refine Array.ext (by simp) fun i _ here => ?_
      by_cases same : e = i
      · subst same
        simp [Array.getElem_modify, inside]
      · simp [Array.getElem_modify, same]
    exact congrArg (fun queens => { s.1 with queens }) back

/-- The rows of a board are lawful at all indices that moves of its registry are made of. -/
theorem lawful_written (n : ℕ) : (registry n).written.Lawful where
  plain := by
    refine List.forall_mem_singleton.2 ⟨fun s e x ranges => ?_, fun s e x ranges => ?_⟩
    · exact (lawful_row n).get_set s e x (lt_of_ranges ranges)
    · exact (lawful_row n).set_get s e x (lt_of_ranges ranges)
  chained := List.forall_mem_nil _
  valid_set _ _ := List.forall_mem_nil _
  valid_withGraph := List.forall_mem_nil _

theorem lawful_problem (n : ℕ) : (problem n).Lawful where
  score_withScore _ _ := rfl
  withScore_withScore _ _ _ := rfl
  withScore_score _ := rfl
  isInitialized_withScore _ _ := rfl
  calculate_withScore _ _ := rfl

theorem blind_written (n : ℕ) : (registry n).written.Blind (problem n) where
  get := List.forall_mem_singleton.2 fun _ _ _ => rfl
  set := List.forall_mem_singleton.2 fun _ _ _ _ => rfl
  graph := List.forall_mem_nil _
  withGraph := List.forall_mem_nil _

/-- A queen that was moved is moved back. -/
theorem reverts_offered {m undo : Move (Board n)} (offered : (registry n).Offers m) (s : Board n)
    (applied : (m.apply s).result = .ok undo) : Move.Reverts (registry n).written m s undo :=
  Move.reverts (lawful_written n) offered.over offered.keepsRuns (List.forall_mem_nil _) applied

end Board
end Example

end PlanSearch
