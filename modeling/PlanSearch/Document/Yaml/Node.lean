import PlanSearch.Document.Yaml.Token

/-!
# Nodes of a block text

The tokens of a text are put together as nodes: scalars, sequences, mappings, and references to
other nodes. Where a node is missing, an empty scalar stands for it.

An anchor gives a node a number: how many names of anchors there were in front of it. So the numbers
of two nodes can be the same if a name is given again. Then a reference leads to the later node.
-/

namespace PlanSearch.Document.Yaml

/-- A node. -/
inductive Node where
  /-- The node with a number. -/
  | reference (number : Nat)
  | scalar (tag : Option String) (style : Style) (s : String)
  | sequence (tag : Option String) (items : List Node)
  | mapping (tag : Option String) (pairs : List (Node × Node))
  deriving Inhabited

namespace Node

/-- What stands for a missing node. -/
def empty : Node := scalar none .plain ""

mutual

/-- The number of marks in a node: one for a scalar or a reference, two around all others. -/
def size : Node → Nat
  | reference _ => 1
  | scalar .. => 1
  | sequence _ items => sizeOfAll items + 2
  | mapping _ pairs => sizeOfPairs pairs + 2

def sizeOfAll : List Node → Nat
  | [] => 0
  | n :: rest => size n + sizeOfAll rest

def sizeOfPairs : List (Node × Node) → Nat
  | [] => 0
  | (k, n) :: rest => size k + size n + sizeOfPairs rest

end

end Node

/-- The tokens that have not been read, and what the others say. -/
structure Assembly where
  tokens : List Token
  /-- What the handles of tags stand for. -/
  handles : List (String × String)
  /-- The numbers that the names of anchors stand for. -/
  names : List (String × Nat) := []
  /-- The nodes with anchors in their order, each with its number. -/
  anchored : List (Nat × Node) := []

/-- A computation that puts tokens together and may fail. -/
abbrev Assemble (α : Type) := StateT Assembly Option α

namespace Assemble

def next? : Assemble (Option Token) := return (← get).tokens.head?

def skip : Assemble Unit := modify fun s => { s with tokens := s.tokens.drop 1 }

/-- Passes over a token if it fits. -/
def skipIf (p : Token → Bool) : Assemble Bool := do
  let fits := (← next?).any p
  if fits then skip
  return fits

/-! ## Properties -/

/-- The tag that a mark stands for. -/
def tagOf (mark : TagMark) : Assemble String := do
  if mark.handle = "" then return mark.suffix
  let stem ← ((← get).handles.lookup mark.handle : Option String)
  return stem ++ mark.suffix

/-- An anchor and a tag in front of a node, in either order. -/
def properties : Assemble (Option String × Option TagMark) := do
  match ← next? with
  | some (.anchor name) =>
    skip
    match ← next? with
    | some (.tag mark) => skip; return (some name, some mark)
    | _ => return (some name, none)
  | some (.tag mark) =>
    skip
    match ← next? with
    | some (.anchor name) => skip; return (some name, some mark)
    | _ => return (none, some mark)
  | _ => return (none, none)

/-- Gives a node an anchor. The node follows, but its number is settled before. -/
def withAnchor (name : Option String) (node : Assemble Node) : Assemble Node := do
  match name with
  | none => node
  | some name =>
    let s ← get
    let number := s.names.length
    let names := (name, number) :: s.names.filter fun (other, _) => other != name
    set { s with names, anchored := s.anchored ++ [(number, Node.empty)] }
    let n ← node
    modify fun t => { t with anchored := t.anchored.set s.anchored.length (number, n) }
    return n

/-- The number that a name leads to. -/
def referenceTo (name : String) : Assemble Node := do
  return .reference (← ((← get).names.lookup name : Option Nat))

/-! ## Nodes -/

/-- Nothing stands in a pair of a block before one of these. -/
def endsPair : Token → Bool
  | .key | .value | .blockEnd => true
  | _ => false

/-- Nothing stands in brackets before one of these. -/
def endsEntry : Token → Bool
  | .comma | .listClose | .tableClose => true
  | _ => false

def isKey : Token → Bool | .key => true | _ => false

def isValue : Token → Bool | .value => true | _ => false

def isComma : Token → Bool | .comma => true | _ => false

def isDash : Token → Bool | .dash => true | _ => false

def isBlockEnd : Token → Bool | .blockEnd => true | _ => false

def isListClose : Token → Bool | .listClose => true | _ => false

def isTableClose : Token → Bool | .tableClose => true | _ => false

/-- A node, or an empty one in front of tokens that end it. -/
def orEmpty (ends : Token → Bool) (node : Assemble Node) : Assemble Node := do
  if (← next?).any ends then return Node.empty else node

mutual

/-- A node; in a block or in brackets, and perhaps with the dashes of a sequence that is not
indented further than the mapping around it. -/
def node (inBlock atDash : Bool) : Nat → Assemble Node
  | 0 => failure
  | rounds + 1 => do
    if let some (.reference name) ← next? then
      skip
      return ← referenceTo name
    let (anchor, mark) ← properties
    let tag ← mark.mapM tagOf
    withAnchor anchor do
      match ← next? with
      | some .dash =>
        if atDash then return .sequence tag (← dashes rounds)
        else if anchor.isSome || tag.isSome then return .scalar tag .plain ""
        else failure
      | some (.scalar style s) =>
        skip
        return .scalar (tag.filter (· != "!")) style s
      | some .listOpen => skip; return .sequence tag (← listItems true rounds)
      | some .tableOpen => skip; return .mapping tag (← tablePairs true rounds)
      | other =>
        match inBlock, other with
        | true, some .sequenceStart => skip; return .sequence tag (← blockItems rounds)
        | true, some .mappingStart => skip; return .mapping tag (← blockPairs rounds)
        | _, _ =>
          if anchor.isSome || tag.isSome then return .scalar tag .plain "" else failure

/-- The items of a sequence in a block. -/
def blockItems : Nat → Assemble (List Node)
  | 0 => failure
  | rounds + 1 => do
    if ← skipIf isDash then
      let n ← orEmpty (fun t => isDash t || isBlockEnd t) (node true false rounds)
      return n :: (← blockItems rounds)
    else if ← skipIf isBlockEnd then return []
    else failure

/-- The items of a sequence without an indentation of its own. -/
def dashes : Nat → Assemble (List Node)
  | 0 => failure
  | rounds + 1 => do
    if ← skipIf isDash then
      let n ← orEmpty (fun t => isDash t || endsPair t) (node true false rounds)
      return n :: (← dashes rounds)
    else return []

/-- The pairs of a mapping in a block. A value may be missing along with its colon. -/
def blockPairs : Nat → Assemble (List (Node × Node))
  | 0 => failure
  | rounds + 1 => do
    if ← skipIf isKey then
      let k ← orEmpty endsPair (node true true rounds)
      let n ←
        if ← skipIf isValue then orEmpty endsPair (node true true rounds) else pure Node.empty
      return (k, n) :: (← blockPairs rounds)
    else if ← skipIf isBlockEnd then return []
    else failure

/-- The items of a sequence in brackets. A key among them begins a mapping of one pair. -/
def listItems (isFirst : Bool) : Nat → Assemble (List Node)
  | 0 => failure
  | rounds + 1 => do
    if ← skipIf isListClose then return []
    if !isFirst && !(← skipIf isComma) then failure
    if ← skipIf isListClose then return []
    let n ←
      if ← skipIf isKey then
        let k ←
          if (← next?).any fun t => isValue t || isComma t || isListClose t then
            skip
            pure .empty
          else node false false rounds
        let n ←
          if ← skipIf isValue then
            orEmpty (fun t => isComma t || isListClose t) (node false false rounds)
          else pure Node.empty
        pure (.mapping none [(k, n)])
      else node false false rounds
    return n :: (← listItems false rounds)

/-- The pairs of a mapping in brackets. A key without a mark has no value. -/
def tablePairs (isFirst : Bool) : Nat → Assemble (List (Node × Node))
  | 0 => failure
  | rounds + 1 => do
    if ← skipIf isTableClose then return []
    if !isFirst && !(← skipIf isComma) then failure
    if ← skipIf isTableClose then return []
    let pair ←
      if ← skipIf isKey then
        let k ← orEmpty (fun t => isValue t || isComma t || isTableClose t)
          (node false false rounds)
        let n ←
          if ← skipIf isValue then
            orEmpty (fun t => isComma t || isTableClose t) (node false false rounds)
          else pure Node.empty
        pure (k, n)
      else pure (← node false false rounds, .empty)
    return pair :: (← tablePairs false rounds)

end

/-! ## Documents -/

/-- What the directives in front of a document say about handles. No handle is given twice, and only
some versions are known. -/
def directives : List Directive → Option (List (String × String))
  | [] => some []
  | .version major minor :: rest => do
    let isAgain := rest.any fun d => match d with | .version .. => true | _ => false
    if isAgain || major ≠ 1 || (minor ≠ 1 && minor ≠ 2) then failure
    directives rest
  | .handle name stem :: rest => do
    let handles ← directives rest
    if (handles.lookup name).isSome then failure
    return (name, stem) :: handles

/-- The handles that need no directive. -/
def commonHandles : List (String × String) := [("!", "!"), ("!!", "tag:yaml.org,2002:")]

/-- Nothing stands in a document before one of these. -/
def endsDocument : Option Token → Bool
  | none | some .documentStart | some .documentEnd | some (.directive _) => true
  | _ => false

/-- The tokens of the directives in front of a document, and the other tokens. -/
def splitDirectives : List Token → List Directive × List Token
  | .directive d :: rest =>
    let (ds, rest) := splitDirectives rest
    (d :: ds, rest)
  | tokens => ([], tokens)

/-- The only document of a text, after its directives. A mark begins it unless it begins the
text. -/
def document (hasDirectives : Bool) : Assemble Node := do
  let isMarked ← skipIf fun t => match t with | .documentStart => true | _ => false
  if hasDirectives && !isMarked then failure
  let root ←
    if isMarked && endsDocument (← next?) then pure .empty
    else node true false (4 * (← get).tokens.length + 4)
  modify fun s => { s with tokens := s.tokens.dropWhile fun t =>
    match t with | .documentEnd => true | _ => false }
  if (← next?).isSome then failure
  return root

end Assemble

/-- The nodes of a text. -/
structure Graph where
  root : Node
  /-- The nodes that references lead to, by their numbers. -/
  anchored : List (Nat × Node)

/-- The nodes that tokens stand for. A text without a document holds nothing. -/
def Graph.ofTokens? (tokens : List Token) : Option Graph :=
  if tokens.isEmpty then some ⟨.empty, []⟩
  else do
    let (ds, rest) := Assemble.splitDirectives tokens
    let handles := (← Assemble.directives ds) ++ Assemble.commonHandles
    let (root, s) ← (Assemble.document !ds.isEmpty).run { tokens := rest, handles }
    return ⟨root, s.anchored.reverse⟩

end PlanSearch.Document.Yaml
