/-!
# Written integers

Decimal numerals of 64-bit integers: an optional sign and at least one digit.
-/

namespace PlanSearch.Text

/-- Why a text is not a numeral. -/
inductive NumeralError where
  | empty
  | badDigit
  | tooLarge
  | tooSmall
  deriving DecidableEq, Repr

/-- The reason in words. -/
def NumeralError.message : NumeralError → String
  | .empty => "cannot parse integer from empty string"
  | .badDigit => "invalid digit found in string"
  | .tooLarge => "number too large to fit in target type"
  | .tooSmall => "number too small to fit in target type"

/-- The value of a decimal digit. -/
def digit? (c : Char) : Option Nat :=
  if '0' ≤ c ∧ c ≤ '9' then some (c.toNat - 48) else none

/-- Reads digits from the left. A number that grows out of range is reported before a later
character that is no digit. -/
def readDigits (sign : Int) (range : Int → Except NumeralError Int) :
    Int → List Char → Except NumeralError Int
  | value, [] => .ok value
  | value, c :: rest =>
    match digit? c with
    | none => .error .badDigit
    | some d =>
      match range (10 * value + sign * d) with
      | .error e => .error e
      | .ok value => readDigits sign range value rest

/-- A number, unless it leaves the 64-bit range. -/
def int64Range (n : Int) : Except NumeralError Int :=
  if n < -0x8000000000000000 then .error .tooSmall
  else if 0x8000000000000000 ≤ n then .error .tooLarge
  else .ok n

/-- Reads the digits of a 64-bit integer of the given sign. -/
def readSigned (sign : Int) (digits : List Char) : Except NumeralError Int64 :=
  if digits.isEmpty then .error .badDigit
  else (readDigits sign int64Range 0 digits).map Int64.ofInt

/-- Reads a 64-bit integer. -/
def readInt64 (cs : List Char) : Except NumeralError Int64 :=
  match cs with
  | [] => .error .empty
  | '-' :: rest => readSigned (-1) rest
  | '+' :: rest => readSigned 1 rest
  | _ => readSigned 1 cs

/-- Writes a 64-bit integer. -/
def writeInt64 (n : Int64) : List Char :=
  if n.toInt < 0 then '-' :: Nat.toDigits 10 n.toInt.natAbs else Nat.toDigits 10 n.toInt.natAbs

end PlanSearch.Text
