import PlanSearch.Document.Readable
import PlanSearch.Document.Yaml.Node
import PlanSearch.Document.Yaml.Word

/-!
# Places in a block document

A document is read from a place in it. Reading follows references, so that a node can be read many
times; how deeply nodes are nested and how often references are followed is limited. Nodes that are
passed over count for nothing.

A tag of the format's own says what a scalar stands for. A tag that begins with an exclamation mark
names an alternative, and cannot stand where the content of a node has to be kept.
-/

namespace PlanSearch.Document.Yaml

/-- A place in a document. -/
structure Place where
  node : Node
  /-- How deeply nodes may be nested from here on. -/
  limit : Nat
  /-- The nodes that references lead to. -/
  anchored : List (Nat × Node)

/-- Reading that follows references, at most so many. -/
abbrev Tracing (α : Type) := StateT Nat Option α

/-! ## Scalars -/

/-- The tags of the format's own. -/
inductive CoreTag where
  | null
  | truth
  | whole
  | real
  deriving DecidableEq

def CoreTag.name : CoreTag → String
  | null => "tag:yaml.org,2002:null"
  | truth => "tag:yaml.org,2002:bool"
  | whole => "tag:yaml.org,2002:int"
  | real => "tag:yaml.org,2002:float"

def CoreTag.ofName? (s : String) : Option CoreTag :=
  [CoreTag.null, .truth, .whole, .real].find? fun tag => tag.name == s

/-- The alternative that a tag names. -/
def alternative (tag : Option String) : Option String :=
  match tag.map String.toList with
  | some ('!' :: rest) => some (String.ofList rest)
  | _ => none

/-- A scalar that can stand for a value of a kind: a plain one whatever its tag, or a literal block
with the tag of the kind. -/
def word (core : CoreTag) : Node → Option String
  | .scalar tag style s =>
    if style = .plain || (style = .literal && tag = some core.name) then some s else none
  | _ => none

/-- The content of a scalar. -/
def scalarContent (tag : Option String) (style : Style) (s : String) : Option Content :=
  if (alternative tag).isSome then none
  else match tag with
    | none => if style = .plain then Word.content s else some (.text s)
    | some name =>
      match CoreTag.ofName? name with
      | some .null => if Word.isNull s then some .null else none
      | some .truth => (Word.truth s).map .truth
      | some .whole => (Word.whole s).join
      | some .real => (Word.real s).map .real
      | none => some (.text s)

/-- The scalar is missing. -/
def isMissing : Node → Bool
  | .scalar _ .plain s => s.isEmpty
  | _ => false

namespace Place

/-- The node that a reference leads to. -/
def follow (anchored : List (Nat × Node)) : Node → Tracing Node
  | .reference number => do
    let left ← get
    if left = 0 then failure
    set (left - 1)
    (anchored.lookup number : Option Node)
  | n => return n

/-- The node at a place. -/
def here (p : Place) : Tracing Node := follow p.anchored p.node

/-- A place inside the node at a place. -/
def inside (p : Place) (node : Node) : Place := { p with node, limit := p.limit - 1 }

/-- Fails where nodes may not be nested any more. -/
def enter (p : Place) : Tracing Unit := if p.limit = 0 then failure else pure ()

/-! ## Content -/

/-- The content of a node, given how the nodes inside are to be read, if any may be. -/
def contentBy (anchored : List (Nat × Node)) (inner : Option (Node → Tracing Content))
    (n : Node) : Tracing Content := do
  match ← follow anchored n, inner with
  | .scalar tag style s, _ => (scalarContent tag style s : Option Content)
  | .sequence tag items, some read =>
    if (alternative tag).isSome then failure
    return .list (← items.mapM read)
  | .mapping tag pairs, some read =>
    if (alternative tag).isSome then failure
    return .table (← pairs.mapM fun (k, n) => do
      let k ← read k
      return (k.key, ← read n))
  | _, _ => failure

/-- The content of a node in which nodes are nested at most so deeply. -/
def contentWithin (anchored : List (Nat × Node)) : Nat → Node → Tracing Content
  | 0, n => contentBy anchored none n
  | depth + 1, n => contentBy anchored (some (contentWithin anchored depth)) n

def content (p : Place) : Tracing Content := contentWithin p.anchored p.limit p.node

/-! ## Wanted kinds -/

/-- What stands at a place, written as text. -/
def text (p : Place) : Tracing String := do
  match ← p.here with
  | .scalar _ _ s => return s
  | _ => failure

/-- A scalar of a kind. -/
def value {α : Type} (core : CoreTag) (read : String → Option α) (p : Place) : Tracing α := do
  let n ← p.here
  ((word core n).bind read : Option α)

/-- An alternative is the text of a scalar, or the tag of an empty one. -/
def choice (names : List String) (p : Place) : Tracing Nat := do
  match ← p.here with
  | .scalar tag style s =>
    match alternative tag with
    | none => (names.idxOf? s : Option Nat)
    | some name =>
      if style = .plain && (s.isEmpty || Word.isNull s) then (names.idxOf? name : Option Nat)
      else failure
  | _ => failure

/-- Words for nothing stand for a missing value, if they are plain. With a tag, the tag has to say
so. -/
def present (p : Place) : Tracing (Option Place) := do
  let n ← p.here
  let p := { p with node := n }
  match n with
  | .scalar none .plain s => return if s.isEmpty || Word.isNull s then none else some p
  | .scalar (some tag) .plain s =>
    if tag ≠ CoreTag.null.name then return some p
    else if Word.isNull s then return none
    else failure
  | _ => return some p

def items (p : Place) : Tracing (List Place) := do
  let n ← p.here
  if isMissing n then return []
  let .sequence _ items := n | failure
  p.enter
  return items.map p.inside

def fields (names : List String) (p : Place) : Tracing (List (Option Place)) := do
  let n ← p.here
  if isMissing n then return names.map fun _ => none
  let .mapping _ pairs := n | failure
  p.enter
  let entries ← pairs.mapM fun (k, n) => do
    return (names.idxOf? (← (p.inside k).text), p.inside n)
  (Readable.fieldsAt names.length entries : Option _)

/-- One entry of a record that says of what kind it is: its kind, or else a key with content. -/
def kindEntry (field : String) (names : List String) (p : Place) (entry : Node × Node) :
    Tracing (Nat ⊕ Key × Content) := do
  let key := (← (p.inside entry.1).content).key
  if key = .name field then
    let name ← (p.inside entry.2).text
    return .inl (← (names.idxOf? name : Option Nat))
  else return .inr (key, ← (p.inside entry.2).content)

def kind (field : String) (names : List String) (p : Place) : Tracing (Nat × Content) := do
  match ← p.here with
  | .sequence tag (first :: rest) =>
    if (alternative tag).isSome then failure
    p.enter
    let name ← (p.inside first).text
    let kind ← (names.idxOf? name : Option Nat)
    return (kind, .list (← rest.mapM fun n => (p.inside n).content))
  | .mapping tag pairs =>
    if (alternative tag).isSome then failure
    p.enter
    let entries ← pairs.mapM (p.kindEntry field names)
    let [kind] := entries.filterMap Sum.getLeft? | failure
    return (kind, .table (entries.filterMap Sum.getRight?))
  | _ => failure

end Place

/-- Every scalar can be read as text, and a missing one as a list or a record without anything in
it. -/
instance Place.readable : Readable Place Tracing where
  count := Place.value .whole fun s => (Word.count s).filter (· < Readable.wordBound)
  real := Place.value .real Word.real
  truth := Place.value .truth Word.truth
  text := Place.text
  choice := Place.choice
  present := Place.present
  items := Place.items
  fields := Place.fields
  kind := Place.kind
  depth := Place.limit

/-! ## Texts -/

/-- Reads something from the only document of a text. Nodes are nested at most 128 deep, and for every
mark in the document at most a hundred references are followed. -/
def read {α : Type} (reader : Place → Tracing α) (s : String) : Option α := do
  let graph ← Graph.ofTokens? (← Token.ofText? s)
  let (a, _) ← (reader ⟨graph.root, 128, graph.anchored⟩).run (100 * graph.root.size)
  return a

end PlanSearch.Document.Yaml
