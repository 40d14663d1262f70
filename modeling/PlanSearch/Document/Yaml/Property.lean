import PlanSearch.Document.Yaml.Cursor

/-!
# Properties of block texts

What stands beside the values of a block text: names of anchors, tags, and directives. A tag is
written by a handle and a suffix. The handle stands for the first part of the tag; the empty handle
stands for nothing.
-/

namespace PlanSearch.Document.Yaml

/-- A tag as it is written. -/
structure TagMark where
  handle : String
  suffix : String

/-- A line in front of a document. -/
inductive Directive where
  | version (major minor : Nat)
  /-- What a handle stands for. -/
  | handle (name stem : String)

/-! ## Names -/

/-- A name after the mark of an anchor or of a reference to one. -/
def anchorName : Scan String := do
  Scan.advance 1
  let name ← Scan.takeWhile isNameChar
  let next ← Scan.next?
  if name.isEmpty || !next.all (fun c => isGap c || "?:,]\x7d%@\x60".toList.contains c) then failure
  return String.ofList name

/-! ## Tags -/

/-- A character of a tag. Brackets and commas belong only to those that are written in full. -/
def isTagChar (isFull : Bool) (c : Char) : Bool :=
  isNameChar c || ";/?:@&=+$.%!~*'()".toList.contains c || (isFull && ",[]".toList.contains c)

/-- An octet written by a percent sign and two digits. -/
def tagOctet : Scan Nat := do
  Scan.expect '%'
  let digits := (← get).rest.take 2
  if digits.length < 2 then failure
  Scan.advance 2
  (natOfDigits 16 digits : Option Nat)

/-- The further octets of a character, each of which holds six bits of it. -/
def tagOctets : Nat → Nat → Scan Nat
  | 0, n => return n
  | count + 1, n => do
    let octet ← tagOctet
    if octet / 64 ≠ 2 then failure
    tagOctets count (64 * n + octet % 64)

/-- A character written by octets. The first one says how many there are. -/
def tagEscape : Scan Char := do
  let octet ← tagOctet
  let n ←
    if octet < 0x80 then pure octet
    else if octet / 32 = 6 then tagOctets 1 (octet % 32)
    else if octet / 16 = 14 then tagOctets 2 (octet % 16)
    else if octet / 8 = 30 then tagOctets 3 (octet % 8)
    else failure
  return Char.ofNat n

/-- The characters of a tag. -/
def tagChars (isFull : Bool) : Nat → Scan (List Char)
  | 0 => failure
  | rounds + 1 => do
    match ← Scan.next? with
    | some '%' =>
      let c ← tagEscape
      return c :: (← tagChars isFull rounds)
    | some c =>
      if isTagChar isFull c then
        Scan.advance 1
        return c :: (← tagChars isFull rounds)
      else return []
    | none => return []

/-- The characters of a tag that has some. -/
def tagText (isFull : Bool) : Scan (List Char) := do
  let cs ← tagChars isFull ((← get).rest.length + 1)
  if cs.isEmpty then failure
  return cs

/-- A handle, or the first part of a tag that looks like one but has no mark at its end. -/
def tagHandle : Scan (List Char) := do
  Scan.expect '!'
  let name ← Scan.takeWhile isNameChar
  if (← Scan.next?) = some '!' then
    Scan.advance 1
    return '!' :: name ++ ['!']
  else return '!' :: name

/-- A tag: in full between angle brackets, with a handle, or with a single mark. -/
def tagMark (inFlow : Bool) : Scan TagMark := do
  let tag : TagMark ←
    if ['!', '<'].isPrefixOf (← get).rest then
      Scan.advance 2
      let cs ← tagText true
      Scan.expect '>'
      pure ⟨"", String.ofList cs⟩
    else
      let handle ← tagHandle
      if 1 < handle.length && handle.getLast? = some '!' then
        pure ⟨String.ofList handle, String.ofList (← tagText false)⟩
      else
        let cs ← tagChars false ((← get).rest.length + 1)
        let suffix := handle.drop 1 ++ cs
        pure (if suffix.isEmpty then ⟨"", "!"⟩ else ⟨"!", String.ofList suffix⟩)
  let next ← Scan.next?
  if !next.all isGap && !(inFlow && next = some ',') then failure
  return tag

/-! ## Directives -/

/-- A part of a version number. -/
def versionPart : Scan Nat := do
  let digits ← Scan.takeWhile Char.isDigit
  if 9 < digits.length then failure
  (natOfDigits 10 digits : Option Nat)

/-- A directive, up to the end of its line. -/
def directive : Scan Directive := do
  Scan.expect '%'
  let name ← Scan.takeWhile isNameChar
  if !isAtGap (← get).rest then failure
  Scan.skipWhile isSpace
  let d ←
    if name = "YAML".toList then
      let major ← versionPart
      Scan.expect '.'
      pure (.version major (← versionPart))
    else if name = "TAG".toList then
      let handle ← tagHandle
      if handle ≠ ['!'] && handle.getLast? ≠ some '!' then failure
      if !(← Scan.next?).any isSpace then failure
      Scan.skipWhile isSpace
      let stem ← tagText true
      if !isAtGap (← get).rest then failure
      pure (.handle (String.ofList handle) (String.ofList stem))
    else failure
  Scan.endLine
  return d

end PlanSearch.Document.Yaml
