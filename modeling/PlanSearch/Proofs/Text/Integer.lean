import Mathlib.Data.List.Forall2
import Mathlib.Tactic.Ring
import PlanSearch.Text.Integer

/-!
# Decimal numerals

A numeral is an optional sign before at least one decimal digit. The reader accepts a text exactly if
it is a numeral of a 64-bit integer, and every 64-bit integer is written as one of its numerals. The
reader looks for numbers out of range after every digit; that is no loss, because further digits only
lead farther away from zero.
-/

namespace PlanSearch.Text

/-! ## Grammar -/

/-- Decimal digits and the number that they stand for. -/
inductive Digits : List Char → Nat → Prop
  | one {c : Char} {d : Nat} (digit : digit? c = some d) : Digits [c] d
  | snoc {cs : List Char} {n : Nat} {c : Char} {d : Nat} (before : Digits cs n)
    (digit : digit? c = some d) : Digits (cs ++ [c]) (10 * n + d)

/-- A numeral and its number. -/
inductive Numeral : List Char → Int → Prop
  | plain {cs : List Char} {n : Nat} (digits : Digits cs n) : Numeral cs n
  | plus {cs : List Char} {n : Nat} (digits : Digits cs n) : Numeral ('+' :: cs) n
  | minus {cs : List Char} {n : Nat} (digits : Digits cs n) : Numeral ('-' :: cs) (-n)

theorem digit?_eq_some {c : Char} {d : Nat} :
    digit? c = some d ↔ c.toNat = 48 + d ∧ d < 10 := by
  have bounds : ('0' ≤ c ∧ c ≤ '9') ↔ 48 ≤ c.toNat ∧ c.toNat ≤ 57 := Iff.rfl
  unfold digit?
  split
  · rename_i inside
    have := bounds.1 inside
    simp
    omega
  · rename_i outside
    have := mt bounds.2 outside
    simp
    omega

theorem digit?_digitChar {d : Nat} (small : d < 10) : digit? d.digitChar = some d :=
  digit?_eq_some.2 ⟨Nat.toNat_digitChar_of_lt_ten small, small⟩

/-- A character that can stand in a numeral. -/
def IsNumeralChar (c : Char) : Prop := c = '+' ∨ c = '-' ∨ (digit? c).isSome

instance : DecidablePred IsNumeralChar := fun c =>
  inferInstanceAs (Decidable (c = '+' ∨ c = '-' ∨ (digit? c).isSome))

theorem Digits.isSome_digit? {cs : List Char} {n : Nat} (digits : Digits cs n) :
    ∀ c ∈ cs, (digit? c).isSome := by
  induction digits with
  | one digit =>
    intro c member
    obtain rfl := List.mem_singleton.1 member
    exact Option.isSome_of_eq_some digit
  | snoc before digit ih =>
    intro c member
    rcases List.mem_append.1 member with member | member
    · exact ih c member
    · obtain rfl := List.mem_singleton.1 member
      exact Option.isSome_of_eq_some digit

theorem Digits.ne_nil {cs : List Char} {n : Nat} (digits : Digits cs n) : cs ≠ [] := by
  cases digits <;> simp

theorem Numeral.isNumeralChar {cs : List Char} {v : Int} (numeral : Numeral cs v) :
    ∀ c ∈ cs, IsNumeralChar c := by
  cases numeral with
  | plain digits => exact fun c member => .inr (.inr (digits.isSome_digit? c member))
  | plus digits =>
    intro c member
    rcases List.mem_cons.1 member with rfl | member
    · exact .inl rfl
    · exact .inr (.inr (digits.isSome_digit? c member))
  | minus digits =>
    intro c member
    rcases List.mem_cons.1 member with rfl | member
    · exact .inr (.inl rfl)
    · exact .inr (.inr (digits.isSome_digit? c member))

theorem Numeral.notMem {cs : List Char} {v : Int} (numeral : Numeral cs v) {c : Char}
    (foreign : ¬IsNumeralChar c) : c ∉ cs :=
  fun member => foreign (numeral.isNumeralChar c member)

theorem Numeral.ne_nil {cs : List Char} {v : Int} (numeral : Numeral cs v) : cs ≠ [] := by
  cases numeral with
  | plain digits => exact digits.ne_nil
  | plus | minus => exact List.cons_ne_nil _ _

theorem not_digits_nil {n : Nat} : ¬Digits [] n := fun digits => digits.ne_nil rfl

theorem Digits.not_sign {c : Char} {cs : List Char} {n : Nat} (digits : Digits (c :: cs) n) :
    c ≠ '-' ∧ c ≠ '+' := by
  have digit := digits.isSome_digit? c List.mem_cons_self
  constructor
  · rintro rfl
    cases digit
  · rintro rfl
    cases digit

theorem numeral_minus {cs : List Char} {v : Int} :
    Numeral ('-' :: cs) v ↔ ∃ n, Digits cs n ∧ v = -n := by
  constructor
  · intro numeral
    cases numeral with
    | plain digits => exact absurd rfl digits.not_sign.1
    | minus digits => exact ⟨_, digits, rfl⟩
  · rintro ⟨n, digits, rfl⟩
    exact .minus digits

theorem numeral_plus {cs : List Char} {v : Int} :
    Numeral ('+' :: cs) v ↔ ∃ n, Digits cs n ∧ v = n := by
  constructor
  · intro numeral
    cases numeral with
    | plain digits => exact absurd rfl digits.not_sign.2
    | plus digits => exact ⟨_, digits, rfl⟩
  · rintro ⟨n, digits, rfl⟩
    exact .plus digits

theorem numeral_unsigned {cs : List Char} {v : Int} (unsigned : ∀ rest, cs ≠ '-' :: rest)
    (unmarked : ∀ rest, cs ≠ '+' :: rest) : Numeral cs v ↔ ∃ n, Digits cs n ∧ v = n := by
  constructor
  · intro numeral
    cases numeral with
    | plain digits => exact ⟨_, digits, rfl⟩
    | plus digits => exact absurd rfl (unmarked _)
    | minus digits => exact absurd rfl (unsigned _)
  · rintro ⟨n, digits, rfl⟩
    exact .plain digits

/-! ## Reading -/

theorem int64Range_eq_ok {n v : Int} :
    int64Range n = .ok v ↔ v = n ∧ -2 ^ 63 ≤ n ∧ n < 2 ^ 63 := by
  unfold int64Range
  split
  · simp
    omega
  · split
    · simp
      omega
    · simp
      omega

/-- What digits after others make of a number. -/
def appendDigits (n : Nat) (ds : List Nat) : Nat := ds.foldl (fun n d => 10 * n + d) n

theorem le_appendDigits (n : Nat) (ds : List Nat) : n ≤ appendDigits n ds := by
  induction ds generalizing n with
  | nil => exact Nat.le_refl n
  | cons d rest ih =>
    have := ih (10 * n + d)
    simp only [appendDigits, List.foldl_cons] at this ⊢
    omega

/-- The digits of a text. -/
def Spells : List Char → List Nat → Prop := List.Forall₂ fun c d => digit? c = some d

theorem Digits.append {cs rest : List Char} {n : Nat} {ds : List Nat} (digits : Digits cs n)
    (spells : Spells rest ds) : Digits (cs ++ rest) (appendDigits n ds) := by
  induction spells generalizing cs n with
  | nil =>
    rw [List.append_nil]
    exact digits
  | cons digit _ ih =>
    rw [List.append_cons]
    exact ih (digits.snoc digit)

theorem digits_iff {cs : List Char} {n : Nat} :
    Digits cs n ↔ cs ≠ [] ∧ ∃ ds, Spells cs ds ∧ appendDigits 0 ds = n := by
  constructor
  · intro digits
    refine ⟨digits.ne_nil, ?_⟩
    induction digits with
    | @one c d digit => exact ⟨[d], .cons digit .nil, by simp [appendDigits]⟩
    | @snoc cs n c d before digit ih =>
      obtain ⟨ds, spells, rfl⟩ := ih
      exact ⟨ds ++ [d], List.rel_append spells (.cons digit .nil), by simp [appendDigits]⟩
  · rintro ⟨some, ds, spells, rfl⟩
    cases spells with
    | nil => exact absurd rfl some
    | @cons c d rest ds digit spells =>
      have first : appendDigits 0 (d :: ds) = appendDigits d ds := by simp [appendDigits]
      exact first ▸ (Digits.one digit).append spells

/-- The reader goes through the digits of a number whose beginning is read. -/
theorem readDigits_eq_ok {sign : Int} (unit : sign = 1 ∨ sign = -1) {n : Nat} {cs : List Char}
    {v : Int} (fits : -2 ^ 63 ≤ sign * n ∧ sign * n < 2 ^ 63) :
    readDigits sign int64Range (sign * n) cs = .ok v ↔
      (∃ ds, Spells cs ds ∧ v = sign * appendDigits n ds) ∧ -2 ^ 63 ≤ v ∧ v < 2 ^ 63 := by
  induction cs generalizing n with
  | nil =>
    simp only [readDigits, Except.ok.injEq]
    constructor
    · rintro rfl
      exact ⟨⟨[], .nil, rfl⟩, fits⟩
    · rintro ⟨⟨ds, ⟨⟩, rfl⟩, -⟩
      rfl
  | cons c rest ih =>
    rw [readDigits]
    cases digit : digit? c with
    | none =>
      simp only [reduceCtorEq, false_iff]
      rintro ⟨⟨_, _ | ⟨same, _⟩, -⟩, -⟩
      rw [digit] at same
      cases same
    | some d =>
      have next : 10 * (sign * n) + sign * (d : Int) = sign * ((10 * n + d : Nat) : Int) := by
        push_cast
        ring
      have spelled : (∃ ds, Spells (c :: rest) ds ∧ v = sign * appendDigits n ds) ↔
          ∃ ds, Spells rest ds ∧ v = sign * appendDigits (10 * n + d) ds := by
        constructor
        · rintro ⟨_, _ | ⟨same, spells⟩, rfl⟩
          obtain rfl := Option.some.inj (digit.symm.trans same)
          exact ⟨_, spells, rfl⟩
        · rintro ⟨ds, spells, rfl⟩
          exact ⟨d :: ds, .cons digit spells, rfl⟩
      dsimp only
      rw [next, spelled]
      cases ranged : int64Range (sign * ((10 * n + d : Nat) : Int)) with
      | ok w =>
        obtain ⟨rfl, fits⟩ := int64Range_eq_ok.1 ranged
        exact ih fits
      | error e =>
        -- Too large a number has no digits after it that make it fit.
        simp only [reduceCtorEq, false_iff]
        rintro ⟨⟨ds, -, rfl⟩, fits⟩
        have grows := le_appendDigits (10 * n + d) ds
        have small : int64Range (sign * ((10 * n + d : Nat) : Int)) =
            .ok (sign * ((10 * n + d : Nat) : Int)) := by
          refine int64Range_eq_ok.2 ⟨rfl, ?_⟩
          rcases unit with rfl | rfl <;> omega
        rw [ranged] at small
        cases small

theorem readSigned_eq_ok {sign : Int} (unit : sign = 1 ∨ sign = -1) {cs : List Char} {n : Int64} :
    readSigned sign cs = .ok n ↔ ∃ k, Digits cs k ∧ n.toInt = sign * k := by
  have reads (v : Int) : readDigits sign int64Range 0 cs = .ok v ↔
      (∃ ds, Spells cs ds ∧ v = sign * appendDigits 0 ds) ∧ -2 ^ 63 ≤ v ∧ v < 2 ^ 63 := by
    simpa using readDigits_eq_ok (n := 0) unit (by simp)
  unfold readSigned
  split
  · rename_i empty
    obtain rfl := List.isEmpty_iff.1 empty
    simp [not_digits_nil]
  · rename_i filled
    constructor
    · intro read
      cases found : readDigits sign int64Range 0 cs with
      | error e =>
        rw [found] at read
        cases read
      | ok v =>
        rw [found] at read
        cases read
        obtain ⟨⟨ds, spells, rfl⟩, low, high⟩ := (reads v).1 found
        refine ⟨_, digits_iff.2 ⟨?_, ds, spells, rfl⟩, Int64.toInt_ofInt_of_le low high⟩
        exact fun empty => filled (List.isEmpty_iff.2 empty)
    · rintro ⟨k, digits, value⟩
      obtain ⟨-, ds, spells, rfl⟩ := digits_iff.1 digits
      rw [(reads n.toInt).2 ⟨⟨ds, spells, value⟩, n.le_toInt, n.toInt_lt⟩]
      exact congrArg Except.ok n.ofInt_toInt

/-- A text is read as a 64-bit integer if it is one of its numerals. -/
theorem readInt64_eq_ok {cs : List Char} {n : Int64} : readInt64 cs = .ok n ↔ Numeral cs n.toInt := by
  unfold readInt64
  split
  · simp only [reduceCtorEq, false_iff]
    exact fun numeral => numeral.ne_nil rfl
  · rw [numeral_minus, readSigned_eq_ok (.inr rfl)]
    simp only [neg_mul, one_mul]
  · rw [numeral_plus, readSigned_eq_ok (.inl rfl)]
    simp only [one_mul]
  · rename_i unsigned unmarked
    rw [numeral_unsigned unsigned unmarked, readSigned_eq_ok (.inl rfl)]
    simp only [one_mul]

/-! ## Writing -/

theorem digits_toDigits (n : Nat) : Digits (Nat.toDigits 10 n) n := by
  induction n using Nat.strongRecOn with
  | _ n ih =>
    rcases lt_or_ge n 10 with small | large
    · rw [Nat.toDigits_of_lt_base small]
      exact .one (digit?_digitChar small)
    · rw [Nat.toDigits_of_base_le (by decide) large]
      have before := ih (n / 10) (by omega)
      have last := before.snoc (digit?_digitChar (Nat.mod_lt n (by decide)))
      rw [Nat.div_add_mod] at last
      exact last

/-- What is written for a 64-bit integer is one of its numerals. -/
theorem numeral_writeInt64 (n : Int64) : Numeral (writeInt64 n) n.toInt := by
  have digits := digits_toDigits n.toInt.natAbs
  unfold writeInt64
  split
  · have numeral := Numeral.minus digits
    rwa [show -(n.toInt.natAbs : Int) = n.toInt by omega] at numeral
  · have numeral := Numeral.plain digits
    rwa [show (n.toInt.natAbs : Int) = n.toInt by omega] at numeral

theorem readInt64_writeInt64 (n : Int64) : readInt64 (writeInt64 n) = .ok n :=
  readInt64_eq_ok.2 (numeral_writeInt64 n)

end PlanSearch.Text
