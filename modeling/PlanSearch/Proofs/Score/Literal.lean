import Mathlib.Data.List.ReduceOption
import PlanSearch.Proofs.Fault
import PlanSearch.Proofs.Text.Integer
import PlanSearch.Proofs.Text.Split
import PlanSearch.Score.Literal

/-!
# The grammar of score literals

The readers of score literals accept exactly the texts of a grammar, with blanks around a literal and
around its parts, and return the levels that are written there. What the writers make of a score is
such a text. In brackets, places between separators may be left blank: they count for no level.
-/

namespace PlanSearch.Score

open Text

variable {sh : Shape} {cs : List Char}

/-! ## Grammar -/

/-- A place between separators is for a level, or it is blank. -/
inductive Place : Option Int64 → List Char → Prop
  | level {n : Int64} {numeral cs : List Char} (written : Numeral numeral n.toInt)
    (padded : Padded numeral cs) : Place (some n) cs
  | blank {cs : List Char} (blank : Blank cs) : Place none cs

/-- Places with separators between them. -/
def Places (levels : List (Option Int64)) (cs : List Char) : Prop :=
  ∃ places, places ≠ [] ∧ List.Forall₂ Place levels places ∧ ['/'].intercalate places = cs

/-- A text in brackets. -/
def bracketed (cs : List Char) : List Char := '[' :: (cs ++ [']'])

/-- A literal of a shape, without blanks around it, and its levels. -/
inductive Written : Shape → List Char → List Int64 → Prop
  | simple {n : Int64} {cs : List Char} (numeral : Numeral cs n.toInt) : Written .simple cs [n]
  | hardSoft {hard soft : Int64} {first second before after : List Char}
    (written : Numeral first hard.toInt) (written' : Numeral second soft.toInt)
    (blank : Blank before) (blank' : Blank after) :
    Written .hardSoft
      (first ++ "hard".toList ++ before ++ '/' :: (after ++ (second ++ "soft".toList))) [hard, soft]
  | bendable {hard soft : List (Option Int64)} {first second before after last : List Char}
    (places : Places hard first) (places' : Places soft second) (blank : Blank before)
    (blank' : Blank after) (blank'' : Blank last) :
    Written (.bendable hard.reduceOption.length soft.reduceOption.length)
      (bracketed first ++ before ++ "hard/".toList ++
        (after ++ (bracketed second ++ last ++ "soft".toList)))
      (hard.reduceOption ++ soft.reduceOption)

/-! ## Blanks -/

theorem not_isBlank_of_numeralChar {c : Char} (stands : IsNumeralChar c) : ¬isBlank c := by
  rcases stands with rfl | rfl | digit
  · decide
  · decide
  · obtain ⟨d, digit⟩ := Option.isSome_iff_exists.1 digit
    obtain ⟨value, small⟩ := digit?_eq_some.1 digit
    simp [isBlank]
    omega

theorem tight_of_numeral {v : Int} (numeral : Numeral cs v) : Tight cs :=
  .of_forall_mem fun c member => not_isBlank_of_numeralChar (numeral.isNumeralChar c member)

theorem place_none_iff : Place none cs ↔ trim cs = [] := by
  rw [trim_eq_nil_iff]
  constructor
  · rintro ⟨⟩
    assumption
  · exact .blank

theorem place_some_iff {n : Int64} : Place (some n) cs ↔ Numeral (trim cs) n.toInt := by
  constructor
  · rintro (⟨written, padded⟩ | _)
    rwa [trim_of_padded (tight_of_numeral written) padded]
  · intro written
    exact .level written (padded_trim cs)

/-! ## Levels with names -/

theorem readNamedLevel_eq_ok {label : String} {n : Int64} (tight : Tight label.toList)
    (filled : label.toList ≠ []) : readNamedLevel label cs = .ok n ↔
      ∃ numeral, Numeral numeral n.toInt ∧ Padded (numeral ++ label.toList) cs := by
  unfold readNamedLevel
  dsimp only
  constructor
  · intro read
    split at read
    · cases read
    · rename_i numeral ends
      split at read
      · rename_i m found
        cases read
        exact ⟨numeral, readInt64_eq_ok.1 found, dropEnding?_eq_some.1 ends ▸ padded_trim cs⟩
      · cases read
  · rintro ⟨numeral, written, padded⟩
    have whole := (tight_of_numeral written).append tight written.ne_nil filled
    rw [trim_of_padded whole padded, dropEnding?_eq_some.2 rfl]
    dsimp only
    rw [readInt64_eq_ok.2 written]

/-! ## Levels in brackets -/

theorem readTokens_eq_ok {wanted : Nat} {label : String} {part : List Char} {count : Nat}
    {tokens : List (List Char)} {levels : List Int64} :
    readTokens wanted label part count tokens = .ok levels ↔
      count + tokens.length = wanted ∧
        List.Forall₂ (fun token n => Numeral (trim token) n.toInt) tokens levels := by
  induction tokens generalizing count levels with
  | nil =>
    rw [readTokens]
    split
    · rename_i all
      simp [all, eq_comm]
    · rename_i other
      simp [other]
  | cons token rest ih =>
    rw [readTokens]
    split
    · rename_i surplus
      simp only [reduceCtorEq, false_iff, List.length_cons]
      rintro ⟨all, -⟩
      omega
    · constructor
      · intro read
        split at read
        · cases read
        · rename_i n found
          cases others : readTokens wanted label part (count + 1) rest with
          | error e =>
            rw [others] at read
            cases read
          | ok ns =>
            rw [others] at read
            cases read
            obtain ⟨all, tail⟩ := ih.1 others
            rw [List.length_cons]
            exact ⟨by omega, .cons (readInt64_eq_ok.1 found) tail⟩
      · rintro ⟨all, _ | ⟨head, tail⟩⟩
        rw [List.length_cons] at all
        rw [readInt64_eq_ok.2 head]
        dsimp only
        rw [ih.2 ⟨by omega, tail⟩]
        rfl

/-- The places that are not blank are those of the levels. -/
theorem exists_places {places : List (List Char)} {levels : List Int64} :
    List.Forall₂ (fun place n => Numeral (trim place) n.toInt)
        (places.filter fun place => !(trim place).isEmpty) levels ↔
      ∃ slots, List.Forall₂ Place slots places ∧ slots.reduceOption = levels := by
  induction places generalizing levels with
  | nil =>
    constructor
    · rintro ⟨⟩
      exact ⟨[], .nil, rfl⟩
    · rintro ⟨_, ⟨⟩, rfl⟩
      exact .nil
  | cons place rest ih =>
    cases trimmed : trim place with
    | nil =>
      rw [List.filter_cons_of_neg (by simp [trimmed]), ih]
      constructor
      · rintro ⟨slots, each, rfl⟩
        exact ⟨none :: slots, .cons (place_none_iff.2 trimmed) each, rfl⟩
      · rintro ⟨_, _ | ⟨first, each⟩, rfl⟩
        rename_i slot slots
        cases slot with
        | none => exact ⟨slots, each, rfl⟩
        | some n => exact absurd trimmed (place_some_iff.1 first).ne_nil
    | cons c cs =>
      rw [List.filter_cons_of_pos (by simp [trimmed])]
      constructor
      · rintro (_ | ⟨first, each⟩)
        obtain ⟨slots, others, rfl⟩ := ih.1 each
        exact ⟨some _ :: slots, .cons (place_some_iff.2 first) others, rfl⟩
      · rintro ⟨_, _ | ⟨first, each⟩, rfl⟩
        rename_i slot slots
        cases slot with
        | none => simp [place_none_iff.1 first] at trimmed
        | some n => exact .cons (place_some_iff.1 first) (ih.2 ⟨slots, each, rfl⟩)

theorem tight_bracketed (cs : List Char) : Tight (bracketed cs) := by
  constructor
  · intro c member
    cases member
    decide
  · intro c member
    change c ∈ (('[' :: cs) ++ [']']).getLast? at member
    rw [List.getLast?_concat] at member
    cases member
    decide

/-- A place holds blanks and characters of numerals, so it ends before the next separator. -/
theorem Place.notMem {level : Option Int64} (place : Place level cs) {c : Char}
    (apart : ¬isBlank c) (foreign : ¬IsNumeralChar c) : c ∉ cs := by
  cases place with
  | blank blank => exact blank.notMem apart
  | level written padded =>
    obtain ⟨before, after, blank, blank', rfl⟩ := padded
    simp [blank.notMem apart, blank'.notMem apart, written.notMem foreign]

theorem notMem_of_places {slots : List (Option Int64)} {places : List (List Char)}
    (each : List.Forall₂ Place slots places) {c : Char} (apart : ¬isBlank c)
    (foreign : ¬IsNumeralChar c) : ∀ place ∈ places, c ∉ place := by
  induction each with
  | nil => exact nofun
  | cons first _ ih => exact List.forall_mem_cons.2 ⟨first.notMem apart foreign, ih⟩

theorem readBracketed_eq_ok {wanted : Nat} {label : String} {levels : List Int64} :
    readBracketed wanted label cs = .ok levels ↔
      ∃ slots inner, Places slots inner ∧ Padded (bracketed inner) cs ∧
        slots.reduceOption = levels ∧ levels.length = wanted := by
  unfold readBracketed
  constructor
  · intro read
    split at read
    · rename_i rest begins
      split at read
      · cases read
      · rename_i inner ends
        obtain ⟨all, each⟩ := readTokens_eq_ok.1 read
        obtain ⟨slots, filled, rfl⟩ := exists_places.1 each
        have whole : trim cs = bracketed inner := by
          rw [begins, dropEnding?_eq_some.1 ends]
          rfl
        refine ⟨slots, inner, ⟨_, splitOn_ne_nil '/' inner, filled, intercalate_splitOn '/' inner⟩,
          whole ▸ padded_trim cs, rfl, ?_⟩
        rw [← each.length_eq, ← all, Nat.zero_add]
    · cases read
  · rintro ⟨slots, inner, ⟨places, filled, each, rfl⟩, padded, rfl, all⟩
    have whole := trim_of_padded (tight_bracketed _) padded
    split
    · rename_i rest begins
      obtain rfl := (List.cons.inj (whole.symm.trans begins)).2
      rw [dropEnding?_eq_some.2 rfl]
      dsimp only
      rw [splitOn_intercalate filled (notMem_of_places each (by decide) (by decide))]
      have levels := exists_places.2 ⟨slots, each, rfl⟩
      exact readTokens_eq_ok.2 ⟨by rw [levels.length_eq, all, Nat.zero_add], levels⟩
    · rename_i other
      exact absurd whole (other _)

/-! ## Literals -/

theorem readSimple_eq_ok {levels : List Int64} :
    readSimple cs = .ok levels ↔ Written .simple cs levels := by
  unfold readSimple
  constructor
  · intro read
    split at read
    · rename_i n found
      cases read
      exact .simple (readInt64_eq_ok.1 found)
    · cases read
  · rintro ⟨numeral⟩
    rw [readInt64_eq_ok.2 numeral]

theorem readHardSoft_eq_ok {levels : List Int64} : readHardSoft cs = .ok levels ↔
    ∃ first second hard soft, splitOn '/' cs = [first, second] ∧
      readNamedLevel "hard" first = .ok hard ∧ readNamedLevel "soft" second = .ok soft ∧
      levels = [hard, soft] := by
  unfold readHardSoft
  constructor
  · intro read
    split at read
    · cases read
    · rename_i first rest parts
      obtain ⟨hard, readHard, read⟩ := bind_eq_ok.1 read
      cases rest with
      | nil => cases read
      | cons second rest =>
        obtain ⟨soft, readSoft, read⟩ := bind_eq_ok.1 read
        split at read
        · rename_i last
          cases read
          rw [List.isEmpty_iff.1 last] at parts
          exact ⟨first, second, hard, soft, parts, readHard, readSoft, rfl⟩
        · cases read
  · rintro ⟨first, second, hard, soft, parts, readHard, readSoft, rfl⟩
    rw [parts]
    refine bind_eq_ok.2 ⟨hard, readHard, ?_⟩
    exact bind_eq_ok.2 ⟨soft, readSoft, rfl⟩

theorem tight_hard : Tight "hard".toList := .of_forall_mem (by simp [isBlank])

theorem tight_soft : Tight "soft".toList := .of_forall_mem (by simp [isBlank])

/-- Without blanks around it, a text is read as two named levels if it is a literal. -/
theorem written_hardSoft_iff {levels : List Int64} (tight : Tight cs) :
    readHardSoft cs = .ok levels ↔ Written .hardSoft cs levels := by
  rw [readHardSoft_eq_ok]
  constructor
  · rintro ⟨first, second, hard, soft, parts, readHard, readSoft, rfl⟩
    obtain ⟨numeral, written, before, after, blank, blank', rfl⟩ :=
      (readNamedLevel_eq_ok tight_hard (by decide)).1 readHard
    obtain ⟨numeral', written', between, last, blank'', blank''', rfl⟩ :=
      (readNamedLevel_eq_ok tight_soft (by decide)).1 readSoft
    have whole := intercalate_splitOn '/' cs
    rw [parts, intercalate_pair] at whole
    subst whole
    simp only [List.append_assoc] at tight
    obtain rfl := tight.eq_nil_of_blank_append blank
    simp only [← List.append_assoc, ← List.cons_append] at tight
    obtain rfl := tight.eq_nil_of_append_blank blank'''
    simpa using Written.hardSoft written written' blank' blank''
  · intro literal
    cases literal with
    | @hardSoft hard soft first second before after written written' blank blank' =>
      refine ⟨_, _, hard, soft, splitOn_pair ?_ ?_,
        (readNamedLevel_eq_ok tight_hard (by decide)).2
          ⟨first, written, [], before, blank_nil, blank, rfl⟩,
        (readNamedLevel_eq_ok tight_soft (by decide)).2
          ⟨second, written', after, [], blank', blank_nil, by simp⟩, rfl⟩
      · simp [written.notMem (c := '/') (by decide), blank.notMem (c := '/') (by decide)]
      · simp [written'.notMem (c := '/') (by decide), blank'.notMem (c := '/') (by decide)]

theorem Places.notMem {levels : List (Option Int64)} (places : Places levels cs) {c : Char}
    (apart : ¬isBlank c) (foreign : ¬IsNumeralChar c) (other : c ≠ '/') : c ∉ cs := by
  obtain ⟨parts, -, each, rfl⟩ := places
  intro member
  obtain same | ⟨part, there, inside⟩ := mem_of_mem_intercalate member
  · exact other same
  · exact notMem_of_places each apart foreign part there inside

/-- Without blanks around it, a text is read as two lists of levels if it is a literal. -/
theorem written_bendable_iff {h s : Nat} {levels : List Int64} (tight : Tight cs) :
    readBendable h s cs = .ok levels ↔ Written (.bendable h s) cs levels := by
  unfold readBendable
  constructor
  · intro read
    split at read
    · cases read
    · rename_i hardPart rest parts
      split at read
      · cases read
      · rename_i softPart ends
        obtain ⟨hardLevels, readHard, read⟩ := bind_eq_ok.1 read
        obtain ⟨softLevels, readSoft, read⟩ := bind_eq_ok.1 read
        cases read
        obtain ⟨hard, inner, places, padded, rfl, rfl⟩ := readBracketed_eq_ok.1 readHard
        obtain ⟨soft, inner', places', padded', rfl, rfl⟩ := readBracketed_eq_ok.1 readSoft
        have padded'' := padded_trim rest
        rw [dropEnding?_eq_some.1 ends] at padded''
        obtain ⟨front, before, blank, blank', rfl⟩ := padded
        obtain ⟨after, last, blank'', blank''', rfl⟩ := padded'
        obtain ⟨between, back, blank₁, blank₂, rfl⟩ := padded''
        obtain rfl := eq_of_splitOnce? parts
        simp only [List.append_assoc] at tight
        obtain rfl := tight.eq_nil_of_blank_append blank
        simp only [← List.append_assoc] at tight
        obtain rfl := tight.eq_nil_of_append_blank blank₂
        simpa using Written.bendable places places' blank' (blank₁.append blank'') blank'''
  · intro literal
    cases literal with
    | @bendable hard soft first second before after last places places' blank blank' blank'' =>
      have free : 'h' ∉ bracketed first ++ before := by
        simp [bracketed, blank.notMem (c := 'h') (by decide),
          places.notMem (c := 'h') (by decide) (by decide) (by decide)]
      have parts : splitOnce? "hard/".toList (bracketed first ++ before ++ "hard/".toList ++
          (after ++ (bracketed second ++ last ++ "soft".toList))) =
          some (bracketed first ++ before, after ++ (bracketed second ++ last ++ "soft".toList)) :=
        splitOnce?_append free
      have rest : trim (after ++ (bracketed second ++ last ++ "soft".toList)) =
          bracketed second ++ last ++ "soft".toList :=
        trim_of_padded ((tight_bracketed second).wrap tight_soft (List.cons_ne_nil _ _) (by decide) last)
          ⟨after, [], blank', blank_nil, by simp⟩
      rw [parts]
      dsimp only
      rw [rest, dropEnding?_eq_some.2 rfl]
      refine bind_eq_ok.2 ⟨hard.reduceOption, ?_, bind_eq_ok.2 ⟨soft.reduceOption, ?_, rfl⟩⟩
      · exact readBracketed_eq_ok.2
          ⟨hard, first, places, ⟨[], before, blank_nil, blank, rfl⟩, rfl, rfl⟩
      · exact readBracketed_eq_ok.2
          ⟨soft, second, places', ⟨[], last, blank_nil, blank'', rfl⟩, rfl, rfl⟩

theorem Written.length_eq {levels : List Int64} (literal : Written sh cs levels) :
    levels.length = sh.levelCount := by
  cases literal with
  | simple | hardSoft => rfl
  | bendable => exact List.length_append

theorem Written.tight {levels : List Int64} (literal : Written sh cs levels) : Tight cs := by
  cases literal with
  | simple numeral => exact tight_of_numeral numeral
  | @hardSoft hard soft first second before after written written' =>
    have whole := (tight_of_numeral written).wrap tight_soft written.ne_nil (by decide)
      ("hard".toList ++ before ++ '/' :: (after ++ second))
    simpa using whole
  | @bendable hard soft first second before after last =>
    have whole := (tight_bracketed first).wrap tight_soft (List.cons_ne_nil _ _) (by decide)
      (before ++ "hard/".toList ++ (after ++ (bracketed second ++ last)))
    simpa using whole

theorem ofList_toList (s : Score sh) : ofList s.toList = s :=
  ext_toList (toList_ofList s.toList s.length_toList)

/-- Levels of a literal are as many as the score has. -/
theorem ofList_map_eq_ok {levels : Except LiteralError (List Int64)} {v : Score sh}
    (reads : ∀ l, levels = .ok l ↔ Written sh cs l) :
    ofList <$> levels = .ok v ↔ Written sh cs v.toList := by
  constructor
  · intro read
    cases levels with
    | error e => cases read
    | ok l =>
      have literal := (reads l).1 rfl
      obtain rfl := Except.ok.inj read
      rwa [toList_ofList l literal.length_eq]
  · intro literal
    rw [(reads v.toList).2 literal]
    exact congrArg Except.ok (ofList_toList v)

theorem exists_padded_iff {levels : List Int64} :
    (∃ literal, Padded literal cs ∧ Written sh literal levels) ↔ Written sh (trim cs) levels := by
  constructor
  · rintro ⟨literal, padded, written⟩
    rwa [trim_of_padded written.tight padded]
  · exact fun written => ⟨trim cs, padded_trim cs, written⟩

/-- A text is read as a score if it is a literal with its levels, blanks around it aside. -/
theorem readChars_eq_ok {v : Score sh} :
    readChars sh cs = .ok v ↔ ∃ literal, Padded literal cs ∧ Written sh literal v.toList := by
  rw [exists_padded_iff]
  unfold readChars
  cases sh with
  | simple => exact ofList_map_eq_ok fun _ => readSimple_eq_ok
  | hardSoft => exact ofList_map_eq_ok fun _ => written_hardSoft_iff (tight_trim cs)
  | bendable => exact ofList_map_eq_ok fun _ => written_bendable_iff (tight_trim cs)

/-- Texts that are no literals are refused, and the others are read as the score whose levels they
name, each by one numeral. Between brackets, places without a level are passed over. -/
theorem read_eq_ok (sh : Shape) (text : String) (v : Score sh) :
    read sh text = .ok v ↔ ∃ literal, Padded literal text.toList ∧ Written sh literal v.toList :=
  readChars_eq_ok

/-- A separator too many is passed over, even where no level is missing. -/
example : read (.bendable 1 2) "[0/]hard/[-1/-2]soft" = .ok (ofList [0, -1, -2]) := by decide +kernel

/-! ## What is written -/

theorem exists_places_joinLevels (levels : List Int64) :
    ∃ slots, Places slots (joinLevels levels) ∧ slots.reduceOption = levels := by
  cases levels with
  | nil => exact ⟨[none], ⟨[[]], by simp, .cons (.blank blank_nil) .nil, rfl⟩, rfl⟩
  | cons n rest =>
    refine ⟨(n :: rest).map some, ⟨(n :: rest).map writeInt64, by simp, ?_, rfl⟩, ?_⟩
    · refine List.forall₂_map_left_iff.2 (List.forall₂_map_right_iff.2 ?_)
      exact List.forall₂_same.2 fun m _ => .level (numeral_writeInt64 m) (padded_self _)
    · simp [List.reduceOption]

/-- What is written for a score is a literal of its levels. -/
theorem written_literalChars (s : Score sh) : Written sh s.literalChars s.toList := by
  cases sh with
  | simple =>
    obtain ⟨n, one⟩ := List.length_eq_one_iff.1 s.length_toList
    rw [literalChars, one]
    simpa using Written.simple (numeral_writeInt64 n)
  | hardSoft =>
    obtain ⟨hard, soft, two⟩ := List.length_eq_two.1 s.length_toList
    have literal := Written.hardSoft (numeral_writeInt64 hard) (numeral_writeInt64 soft) blank_nil
      blank_nil
    simp only [literalChars, hardLevels, softLevels, two]
    simpa [Shape.hardCount] using literal
  | bendable h k =>
    obtain ⟨hard, places, sameHard⟩ := exists_places_joinLevels s.hardLevels
    obtain ⟨soft, places', sameSoft⟩ := exists_places_joinLevels s.softLevels
    have literal := Written.bendable places places' blank_nil blank_nil blank_nil
    have total : s.toList.length = h + k := s.length_toList
    have countHard : s.hardLevels.length = h := by simp [hardLevels, Shape.hardCount, total]
    have countSoft : s.softLevels.length = k := by simp [softLevels, Shape.hardCount, total]
    rw [sameHard, sameSoft, countHard, countSoft] at literal
    have levels : s.hardLevels ++ s.softLevels = s.toList := List.take_append_drop _ _
    rw [levels] at literal
    simpa [literalChars, bracketed] using literal

/-- Scores are read back from what is written for them and from the list of their levels. -/
theorem read_literal (s : Score sh) :
    (∀ before after : String, Blank before.toList → Blank after.toList →
      read sh (before ++ s.literal ++ after) = .ok s) ∧ (ofList s.toList : Score sh) = s := by
  refine ⟨fun before after blank blank' => ?_, ofList_toList s⟩
  refine readChars_eq_ok.2 ⟨s.literalChars, ⟨before.toList, after.toList, blank, blank', ?_⟩,
    written_literalChars s⟩
  simp [literal]

theorem read_literal_lowest : Blank " \u3000".toList ∧ Blank "\n".toList ∧
    read (.bendable 0 2)
      (" \u3000" ++ (ofList [Int64.minValue, 7] : Score (.bendable 0 2)).literal ++ "\n") =
        .ok (ofList [Int64.minValue, 7]) :=
  have before : Blank " \u3000".toList := by decide
  have after : Blank "\n".toList := by decide
  ⟨before, after, (read_literal _).1 _ _ before after⟩

end PlanSearch.Score
