import PlanSearch.Score.Basic
import PlanSearch.Text.Split

/-!
# Score literals

The written form of a score: `-5` for a simple one, `1hard/20soft` for a hard and a soft level,
and `[0/1]hard/[20]soft` for the other shapes. Blanks around a literal and around its parts are
allowed.
-/

namespace PlanSearch

open Text

/-- Why a text is no score literal. -/
inductive LiteralError where
  /-- A simple score that is no numeral. -/
  | simple (text : String) (reason : NumeralError)
  /-- A level that is no numeral. -/
  | level (label text : String) (reason : NumeralError)
  | missingLevel (text : String)
  | surplusLevel (text : String)
  /-- A part that does not end in the name of its level. -/
  | ending (text label : String)
  /-- A text without the separator between hard and soft levels. -/
  | shape (text : String)
  /-- A text that does not end in the name of the soft levels. -/
  | softEnding (text : String)
  /-- Levels without brackets around them. -/
  | brackets (label text : String)
  /-- A wrong number of levels. -/
  | count (wanted : Nat) (label text : String)
  deriving DecidableEq, Repr

/-- The reason in words. -/
def LiteralError.message (e : LiteralError) : String :=
  "score parse error: " ++ match e with
    | simple text reason => "invalid SimpleScore '" ++ text ++ "': " ++ reason.message
    | level label text reason =>
      "invalid " ++ label ++ " level '" ++ text ++ "': " ++ reason.message
    | missingLevel text => "HardSoftScore literal '" ++ text ++ "' needs 2 levels separated by '/'"
    | surplusLevel text => "HardSoftScore literal '" ++ text ++ "' has more than 2 levels"
    | ending text label => "level '" ++ text ++ "' must end with '" ++ label ++ "'"
    | shape text => "'" ++ text ++ "' is not shaped like '[..]hard/[..]soft'"
    | softEnding text => "'" ++ text ++ "' must end with 'soft'"
    | brackets label text => label ++ " levels '" ++ text ++ "' must be bracketed"
    | count wanted label text =>
      "expected " ++ toString wanted ++ " " ++ label ++ " levels in '" ++ text ++ "'"

namespace Score

variable {sh : Shape}

/-! ## Writing -/

/-- Levels with separators between them. -/
def joinLevels (levels : List Int64) : List Char :=
  ['/'].intercalate (levels.map writeInt64)

/-- The written form. -/
def literalChars (s : Score sh) : List Char :=
  match sh with
  | .simple => s.toList.flatMap writeInt64
  | .hardSoft =>
    s.hardLevels.flatMap writeInt64 ++ "hard/".toList ++
      s.softLevels.flatMap writeInt64 ++ "soft".toList
  | .bendable .. =>
    '[' :: joinLevels s.hardLevels ++ "]hard/[".toList ++ joinLevels s.softLevels ++
      "]soft".toList

/-- The written form, as a text. -/
def literal (s : Score sh) : String := String.ofList s.literalChars

/-! ## Reading -/

private def text (cs : List Char) : String := String.ofList cs

/-- Reads a simple score. -/
def readSimple (cs : List Char) : Except LiteralError (List Int64) :=
  match readInt64 cs with
  | .ok n => .ok [n]
  | .error reason => .error (.simple (text cs) reason)

/-- Reads one level with its name after it. -/
def readNamedLevel (label : String) (part : List Char) : Except LiteralError Int64 :=
  let part := trim part
  match dropEnding? label.toList part with
  | none => .error (.ending (text part) label)
  | some number =>
    match readInt64 number with
    | .ok n => .ok n
    | .error reason => .error (.level label (text number) reason)

/-- Reads a hard and a soft level. -/
def readHardSoft (cs : List Char) : Except LiteralError (List Int64) := do
  match splitOn '/' cs with
  | [] => .error (.missingLevel (text cs))
  | first :: rest =>
    let hard ← readNamedLevel "hard" first
    match rest with
    | [] => .error (.missingLevel (text cs))
    | second :: rest =>
      let soft ← readNamedLevel "soft" second
      if rest.isEmpty then return [hard, soft] else .error (.surplusLevel (text cs))

/-- Reads the numerals between brackets. Every numeral beyond the wanted number is refused before
it is read. -/
def readTokens (wanted : Nat) (label : String) (part : List Char) :
    Nat → List (List Char) → Except LiteralError (List Int64)
  | count, [] => if count = wanted then .ok [] else .error (.count wanted label (text part))
  | count, token :: rest =>
    if wanted ≤ count then .error (.count wanted label (text part))
    else match readInt64 (trim token) with
      | .error reason => .error (.level label (text token) reason)
      | .ok n => do
        let others ← readTokens wanted label part (count + 1) rest
        return n :: others

/-- Reads bracketed levels. Blank places between separators are passed over. -/
def readBracketed (wanted : Nat) (label : String) (part : List Char) :
    Except LiteralError (List Int64) :=
  match trim part with
  | '[' :: rest =>
    match dropEnding? [']'] rest with
    | none => .error (.brackets label (text part))
    | some inner =>
      let tokens := (splitOn '/' inner).filter fun token => !(trim token).isEmpty
      readTokens wanted label part 0 tokens
  | _ => .error (.brackets label (text part))

/-- Reads hard levels and soft levels, each in brackets. -/
def readBendable (hard soft : Nat) (cs : List Char) : Except LiteralError (List Int64) :=
  match splitOnce? "hard/".toList cs with
  | none => .error (.shape (text cs))
  | some (hardPart, rest) =>
    match dropEnding? "soft".toList (trim rest) with
    | none => .error (.softEnding (text cs))
    | some softPart => do
      let hardLevels ← readBracketed hard "hard" hardPart
      let softLevels ← readBracketed soft "soft" softPart
      return hardLevels ++ softLevels

/-- Reads a score literal given by its characters. -/
def readChars (sh : Shape) (cs : List Char) : Except LiteralError (Score sh) :=
  let cs := trim cs
  ofList <$> match sh with
    | .simple => readSimple cs
    | .hardSoft => readHardSoft cs
    | .bendable hard soft => readBendable hard soft cs

/-- Reads a score literal. -/
def read (sh : Shape) (s : String) : Except LiteralError (Score sh) := readChars sh s.toList

end Score

end PlanSearch
