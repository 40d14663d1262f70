import Mathlib.Data.List.DropRight
import PlanSearch.Text.Split

/-!
# Trimmed and split text

A text is trimmed to the one part of it that neither begins nor ends with a blank and has blanks only
before and after it. It is split at a character into the parts that have none and are joined by it,
and at a longer separator where that stands for the first time.
-/

namespace PlanSearch.Text

variable {cs text before after : List Char}

/-! ## Blanks -/

/-- There is nothing but blanks. -/
def Blank (cs : List Char) : Prop := ∀ c ∈ cs, isBlank c

instance : Decidable (Blank cs) := List.decidableBAll _ cs

theorem blank_nil : Blank [] := nofun

theorem Blank.append (blank : Blank before) (blank' : Blank after) : Blank (before ++ after) :=
  fun c member => (List.mem_append.1 member).elim (blank c) (blank' c)

theorem Blank.notMem {c : Char} (blank : Blank cs) (apart : ¬isBlank c) : c ∉ cs :=
  fun member => apart (blank c member)

/-- A text stands between blanks. -/
def Padded (text cs : List Char) : Prop :=
  ∃ before after, Blank before ∧ Blank after ∧ cs = before ++ text ++ after

/-- A text neither begins nor ends with a blank. -/
structure Tight (text : List Char) : Prop where
  first : ∀ c ∈ text.head?, ¬isBlank c
  last : ∀ c ∈ text.getLast?, ¬isBlank c

theorem padded_self (text : List Char) : Padded text text :=
  ⟨[], [], blank_nil, blank_nil, by simp⟩

theorem Tight.of_forall_mem (none : ∀ c ∈ text, ¬isBlank c) : Tight text :=
  ⟨fun c member => none c (List.mem_of_head? member),
    fun c member => none c (List.mem_of_getLast? member)⟩

theorem Tight.wrap {front back : List Char} (first : Tight front) (last : Tight back)
    (filled : front ≠ []) (filled' : back ≠ []) (middle : List Char) :
    Tight (front ++ middle ++ back) := by
  refine ⟨fun c member => first.first c ?_, fun c member => last.last c ?_⟩
  · rwa [List.append_assoc, List.head?_append_of_ne_nil _ filled] at member
  · rwa [List.getLast?_append_of_ne_nil _ filled'] at member

theorem Tight.append {front back : List Char} (first : Tight front) (last : Tight back)
    (filled : front ≠ []) (filled' : back ≠ []) : Tight (front ++ back) := by
  have whole := first.wrap last filled filled' []
  rwa [List.append_nil] at whole

theorem Tight.eq_nil_of_blank_append {rest : List Char} (tight : Tight (before ++ rest))
    (blank : Blank before) : before = [] := by
  cases before with
  | nil => rfl
  | cons c others => exact absurd (blank c List.mem_cons_self) (tight.first c rfl)

theorem Tight.eq_nil_of_append_blank {rest : List Char} (tight : Tight (rest ++ after))
    (blank : Blank after) : after = [] := by
  rcases List.eq_nil_or_concat after with none | ⟨others, c, rfl⟩
  · exact none
  · rw [List.concat_eq_append, ← List.append_assoc] at tight
    exact absurd (blank c (by simp)) (tight.last c List.getLast?_concat)

theorem trimEnd_eq (cs : List Char) : trimEnd cs = cs.rdropWhile isBlank := rfl

theorem trimEnd_append (blank : Blank after) : trimEnd (cs ++ after) = trimEnd cs := by
  unfold trimEnd
  rw [List.reverse_append, List.dropWhile_append_of_pos]
  exact fun c member => blank c (List.mem_reverse.1 member)

theorem trimEnd_of_tight (tight : Tight text) : trimEnd text = text := by
  rw [trimEnd_eq, List.rdropWhile_eq_self_iff]
  exact fun filled => tight.last _ (List.getLast?_eq_getLast_of_ne_nil filled)

theorem trim_of_padded (tight : Tight text) (padded : Padded text cs) : trim cs = text := by
  obtain ⟨before, after, blank, blank', rfl⟩ := padded
  rw [trim, List.append_assoc, List.dropWhile_append_of_pos blank]
  cases text with
  | nil =>
    rw [List.nil_append, List.dropWhile_eq_nil_iff.2 blank']
    rfl
  | cons c rest =>
    rw [List.cons_append, List.dropWhile_cons_of_neg (tight.first c rfl), ← List.cons_append,
      trimEnd_append blank', trimEnd_of_tight tight]

theorem padded_trim (cs : List Char) : Padded (trim cs) cs := by
  refine ⟨cs.takeWhile isBlank, (cs.dropWhile isBlank).rtakeWhile isBlank,
    fun _ => List.mem_takeWhile_imp, fun _ => List.mem_rtakeWhile_imp, ?_⟩
  rw [trim, trimEnd_eq, List.append_assoc, List.rdropWhile_append_rtakeWhile,
    List.takeWhile_append_dropWhile]

theorem tight_trim (cs : List Char) : Tight (trim cs) := by
  rw [trim, trimEnd_eq]
  constructor
  · intro c member
    obtain ⟨rest, whole⟩ := List.rdropWhile_prefix isBlank (cs.dropWhile isBlank)
    obtain ⟨others, begins⟩ := List.head?_eq_some_iff.1 member
    rw [begins, List.cons_append] at whole
    have first := List.head?_dropWhile_not isBlank cs
    rw [← whole] at first
    exact Bool.eq_false_iff.1 first
  · intro c member
    obtain ⟨filled, rfl⟩ := List.mem_getLast?_eq_getLast member
    exact List.rdropWhile_last_not isBlank _ filled

/-- A text is trimmed to its part without blanks around it. -/
theorem trim_eq_iff : trim cs = text ↔ Padded text cs ∧ Tight text := by
  constructor
  · rintro rfl
    exact ⟨padded_trim cs, tight_trim cs⟩
  · rintro ⟨padded, tight⟩
    exact trim_of_padded tight padded

theorem trim_eq_nil_iff : trim cs = [] ↔ Blank cs := by
  rw [trim_eq_iff]
  constructor
  · rintro ⟨⟨before, after, blank, blank', rfl⟩, -⟩
    rw [List.append_nil]
    exact blank.append blank'
  · intro blank
    exact ⟨⟨cs, [], blank, blank_nil, by simp⟩, nofun, nofun⟩

/-! ## Separators -/

theorem splitOn_eq (separator : Char) (cs : List Char) :
    splitOn separator cs = cs.splitOn separator := by
  induction cs with
  | nil => rfl
  | cons c rest ih =>
    rw [splitOn, List.splitOn_cons_eq_if_modifyHead, ih]
    cases split : rest.splitOn separator with
    | nil => exact absurd split (List.splitOn_ne_nil _ _)
    | cons part parts => simp

/-- The parts joined by the separator are the text. -/
theorem intercalate_splitOn (separator : Char) (cs : List Char) :
    [separator].intercalate (splitOn separator cs) = cs := by
  rw [splitOn_eq, List.intercalate_splitOn]

/-- Parts without the separator are found again. -/
theorem splitOn_intercalate {separator : Char} {parts : List (List Char)} (some : parts ≠ [])
    (free : ∀ part ∈ parts, separator ∉ part) :
    splitOn separator ([separator].intercalate parts) = parts := by
  rw [splitOn_eq, List.splitOn_intercalate separator free some]

theorem mem_of_mem_intercalate {separator c : Char} {parts : List (List Char)}
    (member : c ∈ [separator].intercalate parts) : c = separator ∨ ∃ part ∈ parts, c ∈ part := by
  induction parts with
  | nil => cases member
  | cons first rest ih =>
    cases rest with
    | nil => exact .inr ⟨first, by simp, by simpa using member⟩
    | cons second rest =>
      rw [List.intercalate_cons_cons, List.mem_append, List.mem_append, List.mem_singleton] at member
      rcases member with (member | member) | member
      · exact .inr ⟨first, by simp, member⟩
      · exact .inl member
      · refine (ih member).imp_right fun found => ?_
        obtain ⟨part, there, inside⟩ := found
        exact ⟨part, List.mem_cons_of_mem _ there, inside⟩

theorem intercalate_pair (separator : Char) (first second : List Char) :
    [separator].intercalate [first, second] = first ++ separator :: second := by
  simp

theorem splitOn_pair {separator : Char} {first second : List Char} (free : separator ∉ first)
    (free' : separator ∉ second) :
    splitOn separator (first ++ separator :: second) = [first, second] := by
  rw [← intercalate_pair]
  exact splitOn_intercalate (List.cons_ne_nil _ _) (by simp [free, free'])

theorem dropEnding?_eq_some {ending rest : List Char} :
    dropEnding? ending cs = some rest ↔ cs = rest ++ ending := by
  unfold dropEnding?
  split
  · rename_i ends
    obtain ⟨front, rfl⟩ := List.isSuffixOf_iff_suffix.1 ends
    simp [eq_comm]
  · rename_i other
    simp only [reduceCtorEq, false_iff]
    rintro rfl
    exact other (List.isSuffixOf_iff_suffix.2 (List.suffix_append rest ending))

theorem eq_of_splitOnce? {separator : List Char}
    (split : splitOnce? separator cs = some (before, after)) : cs = before ++ separator ++ after := by
  induction cs generalizing before after with
  | nil =>
    rw [splitOnce?] at split
    split at split
    · rename_i empty
      cases split
      rw [List.isEmpty_iff.1 empty]
      rfl
    · cases split
  | cons c rest ih =>
    rw [splitOnce?] at split
    split at split
    · rename_i begins
      cases split
      obtain ⟨others, whole⟩ := List.isPrefixOf_iff_prefix.1 begins
      rw [← whole, List.drop_left]
      rfl
    · obtain ⟨⟨front, back⟩, found, same⟩ := Option.map_eq_some_iff.1 split
      cases same
      rw [ih found]
      simp

/-- A separator is found after a text that does not have its first character. -/
theorem splitOnce?_append {c : Char} {separator : List Char} (free : c ∉ before) :
    splitOnce? (c :: separator) (before ++ c :: separator ++ after) = some (before, after) := by
  induction before with
  | nil =>
    rw [List.nil_append, List.cons_append, splitOnce?, if_pos]
    · simp
    · simp
  | cons d rest ih =>
    obtain ⟨other, free⟩ := not_or.1 (mt List.mem_cons.2 free)
    rw [List.cons_append, List.cons_append, splitOnce?, if_neg, ih free]
    · rfl
    · simp [other]

end PlanSearch.Text
