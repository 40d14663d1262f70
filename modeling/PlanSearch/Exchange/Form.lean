import PlanSearch.Chain.Validity
import PlanSearch.Config.Error
import PlanSearch.Director
import PlanSearch.Document.Access
import PlanSearch.Score.Literal

/-!
# Values as documents

Every kind of value that others may look at has a form in which it is written down.
-/

namespace PlanSearch

/-- Values that can be written down. -/
class Form (α : Type u) where
  form : α → Document

export Form (form)

namespace Form

instance : Form Document := ⟨id⟩
instance : Form Bool := ⟨.truth⟩
instance : Form Int := ⟨.integer⟩
instance : Form Nat := ⟨fun n => .integer n⟩
instance : Form Int64 := ⟨fun n => .integer n.toInt⟩
instance : Form Float := ⟨.real⟩
instance : Form String := ⟨.text⟩

/-- Something done without a result. -/
instance : Form Unit := ⟨fun _ => .text "ok"⟩

instance {α : Type u} [Form α] : Form (Option α) where
  form
    | some a => form a
    | none => .null

instance {α : Type u} [Form α] : Form (List α) := ⟨fun items => .list (items.map form)⟩

instance {α : Type u} [Form α] : Form (Array α) := ⟨fun items => form items.toList⟩

/-- A pair is a list of two. -/
instance {α : Type u} {β : Type v} [Form α] [Form β] : Form (α × β) :=
  ⟨fun (a, b) => .list [form a, form b]⟩

/-- The value or the error that stands in its place. -/
instance {ε : Type u} {α : Type v} [Form ε] [Form α] : Form (Except ε α) where
  form
    | .ok a => form a
    | .error e => form e

/-! ## Refused requests -/

/-- A refusal says what rule was broken and how. -/
def refusal (kind message : String) : Document :=
  .table [("error", form kind), ("message", form message)]

instance : Form LiteralError := ⟨fun e => refusal "ScoreParse" e.message⟩
instance : Form ChainError := ⟨fun e => refusal e.kind e.message⟩
instance : Form SelectorError := ⟨fun e => refusal e.kind e.message⟩
instance : Form Config.Flaw :=
  ⟨fun f => refusal "Invalid" (Config.ConfigError.invalid f).message⟩

/-! ## Scores and chains -/

/-- The levels of a score. -/
instance {sh : Shape} : Form (Score sh) := ⟨fun s => form s.toList⟩

instance : Form Handle := ⟨fun h => form h.index⟩

instance : Form SubChain := ⟨fun run => form run.entities⟩

/-- The predecessors of all elements, and their successors. -/
instance : Form ChainGraph :=
  ⟨fun g => form [g.handles.map g.predecessor, g.handles.map g.successor]⟩

instance : Form SplicePlan := ⟨fun p => .table
  [("old", form p.oldPredecessor), ("empty", form p.isEmpty),
   ("links", form (p.links.map fun l => [form l.entity, form l.old, form l.new]))]⟩

/-- Whether a graph is valid. Where the broken rule is one of those that many elements may break,
the element is left out. -/
def validity (g : ChainGraph) : Document :=
  match g.validate with
  | .error (.staleSuccessor h) => .table [("error", form (ChainError.staleSuccessor h).kind)]
  | .error (.detached h) => .table [("error", form (ChainError.detached h).kind)]
  | result => form result

/-! ## Notifications -/

instance : Form PlanningRef := ⟨fun r => form [r.descriptorIndex, r.index]⟩

instance : Form Notification where
  form
    | .beforeChange d e v => form [form "before", form d, form e, form v]
    | .afterChange d e v => form [form "after", form d, form e, form v]
    | .beforeAdded d e => form [form "before_added", form d, form e]
    | .afterAdded d e => form [form "after_added", form d, form e]

end Form

/-- The score whose levels a document lists. -/
def Document.score (d : Document) (sh : Shape) : Score sh := .ofList (d.items.map level)

/-- The element of a chain that an index stands for. -/
def Document.handle (d : Document) : Handle := ⟨d.nat⟩

def Document.handle? (d : Document) : Option Handle := d.present.map handle

def Document.handles (d : Document) : List Handle := d.items.map handle

def Document.score? (d : Document) (sh : Shape) : Option (Score sh) := d.present.map (·.score sh)

end PlanSearch
