import PlanSearch.Move.Basic

/-!
# Applying moves

Applying a move yields the changed solution, the move that takes the change back, and the
notifications for those who watch the solution: every write stands in a bracket of its own, and what
keeps its value is not mentioned. A chained move is refused before anything is written. A composite
of which a part is refused takes back the parts it has applied.
-/

namespace PlanSearch

/-- What watchers of a solution are told. -/
inductive Notification where
  | beforeChange (descriptor entity : Nat) (name : String)
  | afterChange (descriptor entity : Nat) (name : String)
  | beforeAdded (descriptor entity : Nat)
  | afterAdded (descriptor entity : Nat)
  deriving DecidableEq, Repr

namespace Notification

/-- The class and the index of the entity. -/
def subject : Notification → PlanningRef
  | beforeChange d e _ => ⟨d, e⟩
  | afterChange d e _ => ⟨d, e⟩
  | beforeAdded d e => ⟨d, e⟩
  | afterAdded d e => ⟨d, e⟩

/-- Opens a bracket. -/
def isBefore : Notification → Bool
  | beforeChange .. => true
  | beforeAdded .. => true
  | afterChange .. => false
  | afterAdded .. => false

/-- The log consists of closed brackets, each about one entity. -/
def isBalanced : List Notification → Bool
  | [] => true
  | [_] => false
  | a :: b :: rest => a.isBefore && !b.isBefore && a.subject == b.subject && isBalanced rest

end Notification

/-- What applying a move leads to. -/
structure Applied (S : Type) where
  solution : S
  notifications : List Notification
  /-- The move that takes the change back. -/
  result : Except ChainError (Move S)

namespace Move

variable {S : Type}

/-- The bracket around the write of one variable. -/
def bracket (descriptor entity : Nat) (name : String) : List Notification :=
  [.beforeChange descriptor entity name, .afterChange descriptor entity name]

/-- Writes links one at a time, each in its bracket. -/
def writeLinks (v : ChainedVariable S) : List LinkChange → S →
    S × List Notification × Except ChainError Unit
  | [], s => (s, [], .ok ())
  | link :: rest, s =>
    let note := bracket v.descriptorIndex link.entity.index v.name
    match (v.graph s).setPredecessor link.entity link.new with
    | .error e => (s, note, .error e)
    | .ok (_, g) =>
      let (s, notes, result) := writeLinks v rest (v.withGraph s g)
      (s, note ++ notes, result)

/-- Relocates a run. The undo move is made from what the head of the run was placed after. -/
def relocate (v : ChainedVariable S) (run : SubChain) (target : Option Handle) (reversing : Bool)
    (undo : Option Handle → Move S) (s : S) : Applied S :=
  match (v.graph s).planMove run target reversing with
  | .error e => ⟨s, [], .error e⟩
  | .ok plan =>
    let (s, notes, result) := writeLinks v plan.links s
    ⟨s, notes, result.map fun _ => undo plan.oldPredecessor⟩

/-- Applies moves without regard to whether they are refused. -/
def rollBack (step : Move S → S → Applied S) : List (Move S) → S → S × List Notification
  | [], s => (s, [])
  | undo :: rest, s =>
    let a := step undo s
    let (s, notes) := rollBack step rest a.solution
    (s, a.notifications ++ notes)

/-- Applies the parts of a composite in order. The undo moves of the parts that were applied are
kept, the latest first. -/
def applyParts (step : Move S → S → Applied S) : List (Move S) → List (Move S) → S → Applied S
  | [], undos, s => ⟨s, [], .ok (.composite undos)⟩
  | part :: rest, undos, s =>
    let a := step part s
    match a.result with
    | .ok undo =>
      let b := applyParts step rest (undo :: undos) a.solution
      ⟨b.solution, a.notifications ++ b.notifications, b.result⟩
    | .error e =>
      let (s, notes) := rollBack step undos a.solution
      ⟨s, a.notifications ++ notes, .error e⟩

/-- Applies a move whose nesting is at most the given depth. -/
def applyWithin : Nat → Move S → S → Applied S
  | _, .change v e target, s =>
    let old := v.get s e
    if old = target then ⟨s, [], .ok (.change v e old)⟩
    else ⟨v.set s e target, bracket v.descriptorIndex e v.name, .ok (.change v e old)⟩
  | _, .chainedChange v e target, s =>
    relocate v (.single e) target false (fun old => .chainedChange v e old) s
  | _, .changePart v run target, s =>
    relocate v run target false (fun old => .changePart v run old) s
  | _, .reverseChangePart v run target, s =>
    relocate v run target true (fun old => .reverseChangePart v run.reversed old) s
  | 0, .composite _, s => ⟨s, [], .ok (.composite [])⟩
  | depth + 1, .composite parts, s => applyParts (applyWithin depth) parts [] s

/-- Applies a move. Undo moves are nested as deeply as the moves they take back, so the depth of the
move suffices also where parts are taken back. -/
def apply (m : Move S) (s : S) : Applied S := applyWithin m.depth m s

/-- A relocation is not refused and changes a link. -/
def relocates (v : ChainedVariable S) (s : S) (run : SubChain) (target : Option Handle)
    (reversing : Bool) : Bool :=
  match (v.graph s).planMove run target reversing with
  | .ok plan => !plan.isEmpty
  | .error _ => false

mutual

/-- Applying the move would change the solution. Each part of a composite is judged by the solution
as it is before the move. -/
def isDoable (s : S) : Move S → Bool
  | .change v e target => v.get s e != target
  | .chainedChange v e target => relocates v s (.single e) target false
  | .changePart v run target => relocates v s run target false
  | .reverseChangePart v run target => relocates v s run target true
  | .composite parts => isAnyDoable s parts

/-- One of several moves would change the solution. -/
def isAnyDoable (s : S) : List (Move S) → Bool
  | [] => false
  | m :: rest => isDoable s m || isAnyDoable s rest

end

end Move

end PlanSearch
