import PlanSearch.Proofs.Chain.Footprint
import PlanSearch.Proofs.Move.Undo

/-!
# What watchers are told of

Watchers of a solution are told of every variable that a move writes. A move that is not composed
tells of exactly those variables that hold something else afterwards, each in one bracket, in the
order in which they are written. So a watcher that follows the brackets has to look at no variable
twice and misses none.
-/

namespace PlanSearch

/-- A variable of one entity. -/
inductive Cell (S : Type) where
  | value (v : PlainVariable S) (entity : Nat)
  | link (v : ChainedVariable S) (entity : Handle)

namespace Cell

variable {S : Type}

/-- How watchers are told of the variable. -/
def key : Cell S → Nat × Nat × String
  | value v e => (v.descriptorIndex, e, v.name)
  | link v h => (v.descriptorIndex, h.index, v.name)

/-- The variable holds something else in one solution than in the other. -/
def Differs (s t : S) : Cell S → Prop
  | value v e => v.get s e ≠ v.get t e
  | link v h => (v.graph s).predecessor h ≠ (v.graph t).predecessor h

theorem not_differs_self (cell : Cell S) (s : S) : ¬cell.Differs s s := by
  cases cell with
  | value v e => exact fun differ => differ rfl
  | link v h => exact fun differ => differ rfl

end Cell

namespace Move

variable {S : Type} {v : ChainedVariable S} {run : SubChain} {target : Option Handle}
variable {reversing : Bool} {s : S}

/-- The variables that a move is about: the one that is given a value, or the links of a graph. -/
inductive Concerns : Move S → Cell S → Prop
  | change (v : PlainVariable S) (e : Nat) (target : Option Nat) :
    Concerns (.change v e target) (.value v e)
  | chainedChange (v : ChainedVariable S) (e : Handle) (target : Option Handle) (h : Handle) :
    Concerns (.chainedChange v e target) (.link v h)
  | changePart (v : ChainedVariable S) (run : SubChain) (target : Option Handle) (h : Handle) :
    Concerns (.changePart v run target) (.link v h)
  | reverseChangePart (v : ChainedVariable S) (run : SubChain) (target : Option Handle)
    (h : Handle) : Concerns (.reverseChangePart v run target) (.link v h)

/-- The links that a relocation writes, in the order of its plan. -/
def relinks (v : ChainedVariable S) (s : S) (run : SubChain) (target : Option Handle)
    (reversing : Bool) : List (Cell S) :=
  match (v.graph s).planMove run target reversing with
  | .ok plan => plan.links.map fun link => .link v link.entity
  | .error _ => []

/-- The variables that a move writes which is not composed, in the order of its writes. -/
def footprint (s : S) : Move S → List (Cell S)
  | .change v e target => if v.get s e = target then [] else [.value v e]
  | .chainedChange v e target => relinks v s (.single e) target false
  | .changePart v run target => relinks v s run target false
  | .reverseChangePart v run target => relinks v s run target true
  | .composite _ => []

/-- What is told of one write after the other, and that it is told of what differs. -/
structure Tells (m : Move S) (s : S) (cells : List (Cell S)) (a : Applied S) : Prop where
  log : a.notifications = bracketLog (cells.map Cell.key)
  once : (cells.map Cell.key).Nodup
  differing : ∀ cell, cell ∈ cells ↔ m.Concerns cell ∧ cell.Differs s a.solution

theorem tells_change (v : PlainVariable S) (e : Nat) (reads : ∀ s x, v.get (v.set s e x) e = x)
    (target : Option Nat) (s : S) : Tells (.change v e target) s
      ((Move.change v e target).footprint s) ((Move.change v e target).apply s) := by
  rw [apply_change, footprint]
  split
  · refine ⟨rfl, List.nodup_nil, fun cell => ?_⟩
    simpa using fun _ => cell.not_differs_self s
  · rename_i other
    refine ⟨rfl, List.nodup_singleton _, fun cell => ?_⟩
    constructor
    · intro member
      rw [List.mem_singleton.1 member]
      refine ⟨.change v e target, ?_⟩
      show v.get s e ≠ v.get (v.set s e target) e
      rwa [reads]
    · rintro ⟨concerns, -⟩
      cases concerns
      exact List.mem_singleton_self _

/-- Links are told of as the plan lists them. -/
theorem tells_relocate (lawful : v.Lawful) (sound : (v.graph s).Sound)
    (back : Option Handle → Move S) {m : Move S}
    (concerns : ∀ cell, m.Concerns cell ↔ ∃ h, cell = .link v h) :
    Tells m s (relinks v s run target reversing)
      (relocate v run target reversing back s) := by
  cases planned : (v.graph s).planMove run target reversing with
  | error e =>
    rw [relocate_refused back planned, relinks, planned]
    refine ⟨rfl, List.nodup_nil, fun cell => ?_⟩
    simpa using fun _ => cell.not_differs_self s
  | ok plan =>
    obtain ⟨g', written, -, once, changes⟩ := sound.applyPlan planned
    rw [relocate_eq lawful back planned written, relinks, planned]
    refine ⟨?_, ?_, fun cell => ?_⟩
    · simp [Function.comp_def, Cell.key]
    · have injective : Function.Injective fun h : Handle =>
          (v.descriptorIndex, h.index, v.name) := by
        intro a b same
        cases a
        cases b
        simp_all
      simpa [Function.comp_def, Cell.key] using once.map injective
    · rw [concerns, List.mem_map]
      constructor
      · rintro ⟨link, member, rfl⟩
        obtain ⟨old, new, differ⟩ := (changes link).1 member
        refine ⟨⟨_, rfl⟩, ?_⟩
        show (v.graph s).predecessor _ ≠ (v.graph (v.withGraph s g')).predecessor _
        rwa [lawful.graph_withGraph, ← old, ← new]
      · rintro ⟨⟨h, rfl⟩, differ⟩
        have differ : (v.graph s).predecessor h ≠
            (v.graph (v.withGraph s g')).predecessor h := differ
        rw [lawful.graph_withGraph] at differ
        exact ⟨⟨h, _, _⟩, (changes _).2 ⟨rfl, rfl, differ⟩, rfl⟩

theorem tells_apply {vars : Variables S} {m : Move S}
    (reads : ∀ v ∈ vars.plain, ∀ s e x, vars.ranges v e → v.get (v.set s e x) e = x)
    (lawful : ∀ v ∈ vars.chained, v.Lawful) (sound : ∀ v ∈ vars.chained, (v.graph s).Sound)
    (own : m.Over vars) (simple : m.depth = 0) : Tells m s (m.footprint s) (m.apply s) := by
  cases own with
  | @change _ e target member ranges =>
    exact tells_change _ e (fun s x => reads _ member s e x ranges) target s
  | chainedChange e target member =>
    rw [apply_chainedChange]
    refine tells_relocate (lawful _ member) (sound _ member) _ fun cell => ⟨?_, ?_⟩
    · rintro ⟨⟩
      exact ⟨_, rfl⟩
    · rintro ⟨h, rfl⟩
      exact .chainedChange ..
  | changePart run target member =>
    rw [apply_changePart]
    refine tells_relocate (lawful _ member) (sound _ member) _ fun cell => ⟨?_, ?_⟩
    · rintro ⟨⟩
      exact ⟨_, rfl⟩
    · rintro ⟨h, rfl⟩
      exact .changePart ..
  | reverseChangePart run target member =>
    rw [apply_reverseChangePart]
    refine tells_relocate (lawful _ member) (sound _ member) _ fun cell => ⟨?_, ?_⟩
    · rintro ⟨⟩
      exact ⟨_, rfl⟩
    · rintro ⟨h, rfl⟩
      exact .reverseChangePart ..
  | composite all => cases simple

/-- A plan of a valid graph lists exactly the entities that are placed after another element once it
is written, each once, with what it is placed after before and after. A move that is not composed
tells in one closed bracket each of the variables that hold something else afterwards, in the order
of its links, and of nothing else. All brackets are closed, refused or not. -/
theorem apply_tells (vars : Variables S)
    (reads : ∀ v ∈ vars.plain, ∀ s e x, vars.ranges v e → v.get (v.set s e x) e = x)
    (lawful : ∀ v ∈ vars.chained, v.Lawful) :
    (∀ g : ChainGraph, g.validate = .ok () → ∀ run target reversing plan,
      g.planMove run target reversing = .ok plan →
      ∃ g', g.applyPlan plan = .ok g' ∧ (plan.links.map LinkChange.entity).Nodup ∧
        ∀ link, link ∈ plan.links ↔ link.old = g.predecessor link.entity ∧
          link.new = g'.predecessor link.entity ∧ link.old ≠ link.new) ∧
    (∀ (m : Move S) (s : S), Notification.isBalanced (m.apply s).notifications) ∧
    ∀ (m : Move S) (s : S), m.Over vars → m.depth = 0 →
      (∀ v ∈ vars.chained, (v.graph s).Sound) →
      (m.apply s).notifications = bracketLog ((m.footprint s).map Cell.key) ∧
        ((m.footprint s).map Cell.key).Nodup ∧
        ∀ cell, cell ∈ m.footprint s ↔ m.Concerns cell ∧ cell.Differs s (m.apply s).solution := by
  refine ⟨fun g valid run target reversing plan planned => ?_, isBalanced_notifications,
    fun m s own simple sound => ?_⟩
  · obtain ⟨g', written, -, once, changes⟩ :=
      (ChainGraph.validate_eq_ok_iff.1 valid).sound.applyPlan planned
    exact ⟨g', written, once, changes⟩
  · have tells := tells_apply reads lawful sound own simple
    exact ⟨tells.log, tells.once, tells.differing⟩

end Move

namespace Necklace

/-- Both beads are told of when they go to the second string in opposite order, the last one
first. -/
theorem apply_tells_beads :
    ((Move.reverseChangePart previous beads (some ⟨1⟩)).apply plain).notifications =
        Move.bracketLog [(0, 3, "previous"), (0, 2, "previous")] ∧
      (Cell.link previous ⟨2⟩).Differs plain
        ((Move.reverseChangePart previous beads (some ⟨1⟩)).apply plain).solution := by
  have lawful := lawful_vars
  have sound : ∀ v ∈ vars.chained, (v.graph plain).Sound := fun v member =>
    (ChainGraph.validate_eq_ok_iff.1 (valid_plain v member)).sound
  obtain ⟨-, -, tells⟩ := Move.apply_tells vars (fun v member => (lawful.plain v member).get_set)
    lawful.chained
  obtain ⟨log, -, differing⟩ := tells (.reverseChangePart previous beads (some ⟨1⟩)) plain
    (.reverseChangePart _ _ (by simp [vars])) rfl sound
  exact ⟨log, ((differing (.link previous ⟨2⟩)).1 (.tail _ (.head _))).2⟩

end Necklace

end PlanSearch
