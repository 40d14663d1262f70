import PlanSearch.Assembly.Registry
import PlanSearch.Exchange.Form

/-!
# Moves as documents
-/

namespace PlanSearch.Move

open Assembly (RegisteredVariable)

variable {S : Type}

private def changeForm (kind variable_ subject : String) (what target : Document) : Document :=
  .table [("kind", form kind), ("variable", form variable_), (subject, what), ("to", target)]

mutual

/-- The move with its variables, entities and values. -/
def document : Move S → Document
  | .change v e target => changeForm "change" v.name "entity" (form e) (form target)
  | .chainedChange v e target => changeForm "chained_change" v.name "entity" (form e) (form target)
  | .changePart v run target => changeForm "change_part" v.name "sub_chain" (form run) (form target)
  | .reverseChangePart v run target =>
    changeForm "reverse_change_part" v.name "sub_chain" (form run) (form target)
  | .composite parts => .table [("kind", form "composite"), ("moves", .list (documents parts))]

/-- Several moves. -/
def documents : List (Move S) → List Document
  | [] => []
  | m :: rest => document m :: documents rest

end

instance : Form (Move S) := ⟨document⟩

/-- A change of a single variable, if the document describes one. -/
def ofDocument? (find : Document → Option (RegisteredVariable S)) (d : Document) :
    Option (Except ChainError (Move S)) :=
  let target := d "to"
  let run := SubChain.ofList (d "sub_chain").handles
  match (d "kind").string, find (d "variable") with
  | "change", some (.plain v _ _) => some (.ok (.change v (d "entity").nat target.nat?))
  | "chained_change", some (.chained v _ _) =>
    some (.ok (.chainedChange v (d "entity").handle target.handle?))
  | "change_part", some (.chained v _ _) => some (run.map (.changePart v · target.handle?))
  | "reverse_change_part", some (.chained v _ _) =>
    some (run.map (.reverseChangePart v · target.handle?))
  | _, _ => none

mutual

/-- The move that a document describes. What is no change of a variable is a composite. -/
def ofDocument (find : Document → Option (RegisteredVariable S)) :
    Document → Except ChainError (Move S)
  | .table entries =>
    match ofDocument? find (.table entries) with
    | some m => m
    | none => return .composite (← partsOf find entries)
  | _ => .ok (.composite [])

/-- The parts of a composite among the entries of its document. -/
def partsOf (find : Document → Option (RegisteredVariable S)) :
    List (String × Document) → Except ChainError (List (Move S))
  | [] => .ok []
  | (key, .list parts) :: rest =>
    if key == "moves" then ofDocuments find parts else partsOf find rest
  | _ :: rest => partsOf find rest

def ofDocuments (find : Document → Option (RegisteredVariable S)) :
    List Document → Except ChainError (List (Move S))
  | [] => .ok []
  | d :: rest => do return (← ofDocument find d) :: (← ofDocuments find rest)

end

end PlanSearch.Move
