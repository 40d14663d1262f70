import PlanSearch.Assembly.Termination
import PlanSearch.Proofs.Config.Valid
import PlanSearch.Proofs.Score.Order

/-!
# When settings say to stop

Settings are read node by node: the criteria of a node are the limits that are given at it and those
of its children under which a limit is given somewhere, and its style says whether all of them have
to be met or one. A node without a criterion would never stop the search if it were kept, whatever
its style, and so it has to be left out at every depth. What is built from settings stops a search
exactly where the settings, read in this way, say so.
-/

namespace PlanSearch

namespace Config

variable {sh : Shape}

/-! ## Settings as they read -/

/-- A limit is given at the node itself. -/
def Limits.IsGiven (l : Limits) : Prop :=
  l.seconds.isSome ∨ l.milliseconds.isSome ∨ l.steps.isSome ∨ l.unimprovedSteps.isSome ∨
    l.bestScore.isSome

/-- The criteria given at the node itself, by what they ask of the progress of a search. Seconds and
milliseconds are added up to one criterion. -/
inductive Limits.Criterion (l : Limits) : (Progress sh → Prop) → Prop
  | time (given : l.seconds.isSome ∨ l.milliseconds.isSome) : l.Criterion fun p =>
      l.seconds.getD 0 * 1000000000 + l.milliseconds.getD 0 * 1000000 ≤ p.elapsed
  | steps {limit : ℕ} (given : l.steps = some limit) : l.Criterion fun p => limit ≤ p.steps
  | unimprovedSteps {limit : ℕ} (given : l.unimprovedSteps = some limit) :
      l.Criterion fun p => limit ≤ p.unimproved
  | bestScore {text : String} {target : Score sh} (given : l.bestScore = some text)
      (literal : Score.read sh text = .ok target) :
      l.Criterion fun p => ∃ best ∈ p.best, target ≤ best

namespace TerminationSettings

/-- A limit is given somewhere. -/
inductive HasLimit : TerminationSettings → Prop
  | own {limits : Limits} {children : List TerminationSettings} (given : limits.IsGiven) :
    HasLimit (.node limits children)
  | nested {limits : Limits} {children : List TerminationSettings} {child : TerminationSettings}
    (member : child ∈ children) (limit : HasLimit child) : HasLimit (.node limits children)

/-- Every score that is to be attained is written as one of the given shape. -/
inductive Legible (sh : Shape) : TerminationSettings → Prop
  | node {limits : Limits} {children : List TerminationSettings}
    (own : ∀ text ∈ limits.bestScore, ∃ target, Score.read sh text = .ok target)
    (nested : ∀ child ∈ children, Legible sh child) : Legible sh (.node limits children)

/-- The settings say that a search with such a progress is to stop. -/
inductive Stops (p : Progress sh) : TerminationSettings → Prop
  | all {limits : Limits} {children : List TerminationSettings} (style : limits.style = some .and)
    (own : ∀ met, limits.Criterion met → met p)
    (nested : ∀ child ∈ children, child.HasLimit → Stops p child) : Stops p (.node limits children)
  | own {limits : Limits} {children : List TerminationSettings} (style : limits.style ≠ some .and)
    {met : Progress sh → Prop} (criterion : limits.Criterion met) (reached : met p) :
    Stops p (.node limits children)
  | nested {limits : Limits} {children : List TerminationSettings} {child : TerminationSettings}
    (style : limits.style ≠ some .and) (member : child ∈ children) (limit : child.HasLimit)
    (stops : Stops p child) : Stops p (.node limits children)

/-- To prove something of all settings it may be assumed of the children. -/
theorem induction {motive : TerminationSettings → Prop}
    (node : ∀ limits children, (∀ child ∈ children, motive child) → motive (.node limits children)) :
    ∀ c, motive c
  | .node limits children => node limits children fun child member =>
    have := List.sizeOf_lt_of_mem member
    induction node child
  termination_by c => sizeOf c

/-! ## What is left out -/

section Empty

variable {limits : Limits} {children : List TerminationSettings}

theorem hasLimit_node :
    HasLimit (.node limits children) ↔ limits.IsGiven ∨ ∃ child ∈ children, child.HasLimit := by
  constructor
  · rintro (given | ⟨member, limit⟩)
    · exact .inl given
    · exact .inr ⟨_, member, limit⟩
  · rintro (given | ⟨child, member, limit⟩)
    · exact .own given
    · exact .nested member limit

theorem not_overlong_of_mem (fits : ¬Overlong (.node limits children)) {child : TerminationSettings}
    (member : child ∈ children) : ¬child.Overlong := fun long => fits (.nested member long)

/-- Time limits that are not too long together are added up, if there are any. -/
theorem time_eq (fits : ¬Overlong (.node limits children)) : limits.time =
    .ok (if limits.seconds.isSome ∨ limits.milliseconds.isSome then
      some (limits.seconds.getD 0 * 1000000000 + limits.milliseconds.getD 0 * 1000000) else none) := by
  have short : limits.time ≠ .error .overflow := fun long => fits (.own long)
  cases seconds : limits.seconds <;> cases milliseconds : limits.milliseconds <;>
    simp only [Limits.time, seconds, milliseconds] at short ⊢
  · rfl
  all_goals
    have inside := Decidable.byContradiction fun outside => short (if_neg outside)
    rw [if_pos inside]
    simp

theorem areEmpty_eq {cs : List TerminationSettings}
    (each : ∀ c ∈ cs, ∃ empty, c.isEmpty = .ok empty ∧ (empty = true ↔ ¬c.HasLimit)) :
    ∃ empty, areEmpty cs = .ok empty ∧ (empty = true ↔ ∀ c ∈ cs, ¬c.HasLimit) := by
  induction cs with
  | nil => exact ⟨true, rfl, by simp⟩
  | cons c rest ih =>
    rw [List.forall_mem_cons] at each
    obtain ⟨⟨first, known, same⟩, others⟩ := each
    obtain ⟨empty, others, sameRest⟩ := ih others
    rw [areEmpty, known]
    cases first with
    | true => exact ⟨empty, others, by simp [sameRest, same.1 rfl]⟩
    | false =>
      have limit : c.HasLimit := by simpa using same
      exact ⟨false, rfl, by simp [limit]⟩

/-- Settings count as empty if no limit is given anywhere. -/
theorem isEmpty_eq (c : TerminationSettings) (fits : ¬c.Overlong) :
    ∃ empty, c.isEmpty = .ok empty ∧ (empty = true ↔ ¬c.HasLimit) := by
  induction c using induction with
  | node limits children ih =>
    obtain ⟨empty, known, same⟩ :=
      areEmpty_eq fun child member => ih child member (not_overlong_of_mem fits member)
    have sight : (∃ time, limits.time = .ok time ∧
        ((time.isNone && limits.steps.isNone && limits.unimprovedSteps.isNone &&
          limits.bestScore.isNone) = true ↔ ¬limits.IsGiven)) := by
      refine ⟨_, time_eq fits, ?_⟩
      by_cases given : limits.seconds.isSome ∨ limits.milliseconds.isSome
      · simp [given, Limits.IsGiven, ← or_assoc]
      · rw [if_neg given]
        rw [not_or] at given
        simp [given, Limits.IsGiven, and_assoc]
    obtain ⟨time, total, unlimited⟩ := sight
    simp only [isEmpty, total, hasLimit_node, not_or, not_exists, not_and]
    rw [← same]
    by_cases given : limits.IsGiven
    · exact ⟨false, if_neg fun none => unlimited.1 none given, by simp [given]⟩
    · exact ⟨empty, by rw [if_pos (unlimited.2 given), known], by simp [given]⟩

end Empty

/-! ## Literals -/

/-- What is blank is no score. -/
theorem not_blank_of_read {text : String} {target : Score sh}
    (literal : Score.read sh text = .ok target) : Text.trim text.toList ≠ [] := by
  intro blank
  simp only [Score.read, Score.readChars, blank] at literal
  cases sh <;> cases literal

/-- The check passes settings whose scores can be read. -/
theorem validate_of_legible (c : TerminationSettings) (legible : c.Legible sh) :
    c.validate = .ok () := by
  induction c using induction with
  | node limits children ih =>
    obtain ⟨own, nested⟩ := legible
    have written : ¬(limits.bestScore.any fun s => (Text.trim s.toList).isEmpty) := by
      cases given : limits.bestScore with
      | none => simp
      | some text =>
        obtain ⟨target, literal⟩ := own text given
        simpa using not_blank_of_read literal
    rw [validate, if_neg written]
    clear own written
    induction children with
    | nil => rfl
    | cons c rest ihRest =>
      rw [List.forall_mem_cons] at ih nested
      rw [validateAll, ih.1 nested.1]
      exact ihRest ih.2 nested.2

end TerminationSettings

end Config

/-! ## What is built -/

namespace Termination

variable {sh : Shape}

/-- Wherever criteria are joined, there are some. -/
inductive Filled : Termination sh → Prop
  | stepCount (limit : ℕ) : Filled (.stepCount limit)
  | unimprovedStepCount (limit : ℕ) : Filled (.unimprovedStepCount limit)
  | scoreAttained (target : Score sh) : Filled (.scoreAttained target)
  | timeSpent (limit : ℕ) : Filled (.timeSpent limit)
  | allOf {children : List (Termination sh)} (some : children ≠ [])
    (each : ∀ t ∈ children, Filled t) : Filled (.allOf children)
  | anyOf {children : List (Termination sh)} (some : children ≠ [])
    (each : ∀ t ∈ children, Filled t) : Filled (.anyOf children)

/-- The termination joins no empty list of criteria, and stops a search exactly where something is
met. -/
structure Tells (t : Termination sh) (met : Progress sh → Prop) : Prop where
  filled : t.Filled
  iff : ∀ p, t.isTerminated p = true ↔ met p

theorem areAllTerminated_iff {p : Progress sh} {ts : List (Termination sh)} :
    areAllTerminated p ts = true ↔ ∀ t ∈ ts, t.isTerminated p = true := by
  induction ts with
  | nil => simp [areAllTerminated]
  | cons t rest ih => simp [areAllTerminated, ih]

theorem isAnyTerminated_iff {p : Progress sh} {ts : List (Termination sh)} :
    isAnyTerminated p ts = true ↔ ∃ t ∈ ts, t.isTerminated p = true := by
  induction ts with
  | nil => simp [isAnyTerminated]
  | cons t rest ih => simp [isAnyTerminated, ih]

/-- The terminations tell of what is met, each of something and all that there is. -/
def TellAll (ts : List (Termination sh)) (criteria : (Progress sh → Prop) → Prop) : Prop :=
  (∀ t ∈ ts, ∃ met, criteria met ∧ t.Tells met) ∧ ∀ met, criteria met → ∃ t ∈ ts, t.Tells met

section Combine

variable {ts : List (Termination sh)} {criteria : (Progress sh → Prop) → Prop}

theorem TellAll.append {ts' : List (Termination sh)} {criteria' : (Progress sh → Prop) → Prop}
    (tell : TellAll ts criteria) (tell' : TellAll ts' criteria') :
    TellAll (ts ++ ts') fun met => criteria met ∨ criteria' met := by
  refine ⟨fun t member => ?_, fun met criterion => ?_⟩
  · rcases List.mem_append.1 member with member | member
    · obtain ⟨met, criterion, tells⟩ := tell.1 t member
      exact ⟨met, .inl criterion, tells⟩
    · obtain ⟨met, criterion, tells⟩ := tell'.1 t member
      exact ⟨met, .inr criterion, tells⟩
  · rcases criterion with criterion | criterion
    · obtain ⟨t, member, tells⟩ := tell.2 met criterion
      exact ⟨t, List.mem_append_left _ member, tells⟩
    · obtain ⟨t, member, tells⟩ := tell'.2 met criterion
      exact ⟨t, List.mem_append_right _ member, tells⟩

theorem TellAll.forall_iff (tell : TellAll ts criteria) (p : Progress sh) :
    (∀ t ∈ ts, t.isTerminated p = true) ↔ ∀ met, criteria met → met p := by
  constructor
  · intro all met criterion
    obtain ⟨t, member, tells⟩ := tell.2 met criterion
    exact (tells.iff p).1 (all t member)
  · intro all t member
    obtain ⟨met, criterion, tells⟩ := tell.1 t member
    exact (tells.iff p).2 (all met criterion)

theorem TellAll.exists_iff (tell : TellAll ts criteria) (p : Progress sh) :
    (∃ t ∈ ts, t.isTerminated p = true) ↔ ∃ met, criteria met ∧ met p := by
  constructor
  · rintro ⟨t, member, stops⟩
    obtain ⟨met, criterion, tells⟩ := tell.1 t member
    exact ⟨met, criterion, (tells.iff p).1 stops⟩
  · rintro ⟨met, criterion, reached⟩
    obtain ⟨t, member, tells⟩ := tell.2 met criterion
    exact ⟨t, member, (tells.iff p).2 reached⟩

/-- Criteria that are joined, of which there is one at least, stop a search as their style says. -/
theorem TellAll.combine (tell : TellAll ts criteria) (some : ∃ met, criteria met)
    (style : Config.CompositionStyle) : (combine style ts).Tells fun p =>
      match style with
      | .and => ∀ met, criteria met → met p
      | .or => ∃ met, criteria met ∧ met p := by
  have nonempty : ts ≠ [] := by
    obtain ⟨met, criterion⟩ := some
    obtain ⟨t, member, -⟩ := tell.2 met criterion
    exact List.ne_nil_of_mem member
  have filled (t : Termination sh) (member : t ∈ ts) : t.Filled := by
    obtain ⟨met, -, tells⟩ := tell.1 t member
    exact tells.filled
  rcases ts with _ | ⟨t, _ | ⟨t', rest⟩⟩
  · exact absurd rfl nonempty
  · refine ⟨filled t List.mem_cons_self, fun p => ?_⟩
    cases style with
    | and => simpa [Termination.combine] using tell.forall_iff p
    | or => simpa [Termination.combine] using tell.exists_iff p
  · cases style with
    | and =>
      refine ⟨.allOf nonempty filled, fun p => ?_⟩
      rw [← tell.forall_iff p, ← areAllTerminated_iff]
      simp [Termination.combine, isTerminated]
    | or =>
      refine ⟨.anyOf nonempty filled, fun p => ?_⟩
      rw [← tell.exists_iff p, ← isAnyTerminated_iff]
      simp [Termination.combine, isTerminated]

end Combine

end Termination

namespace Assembly

open Config Termination TerminationSettings

variable {sh : Shape} {limits : Limits} {children : List TerminationSettings}

theorem tells_scoreAttained (target : Score sh) :
    (scoreAttained target).Tells fun p => ∃ best ∈ p.best, target ≤ best := by
  refine ⟨.scoreAttained target, fun p => ?_⟩
  cases found : p.best <;> simp [isTerminated, found]

/-- The limits of a node are built as they are given. -/
theorem tellAll_ownCriteria (fits : ¬Overlong (.node limits children))
    (legible : ∀ text ∈ limits.bestScore, ∃ target, Score.read sh text = .ok target) :
    ∃ own : List (Termination sh), ownCriteria limits = .ok own ∧ TellAll own limits.Criterion := by
  obtain ⟨targets, read, literals⟩ : ∃ targets : Option (Score sh),
      limits.bestScore.mapM scoreLimit = .ok (targets.map scoreAttained) ∧
      ∀ target, target ∈ targets ↔
        ∃ text, limits.bestScore = some text ∧ Score.read sh text = .ok target := by
    cases given : limits.bestScore with
    | none => exact ⟨none, rfl, by simp⟩
    | some text =>
      obtain ⟨target, literal⟩ := legible text given
      refine ⟨some target, ?_, fun target' => ?_⟩
      · rw [Option.mapM_some, scoreLimit, literal]
        rfl
      · simp [literal]
  refine ⟨_, by rw [ownCriteria, time_eq fits, read]; rfl, fun t member => ?_, fun met criterion => ?_⟩
  · simp only [List.mem_append, List.mem_map, Option.mem_toList, Option.map_eq_some_iff,
      Option.ite_none_right_eq_some] at member
    obtain ((⟨limit, ⟨given, same⟩, rfl⟩ | ⟨limit, given, rfl⟩) | ⟨limit, given, rfl⟩) |
      ⟨target, wanted, rfl⟩ := member
    · obtain rfl := Option.some.inj same
      exact ⟨_, .time given, .timeSpent _, fun p => by simp [isTerminated]⟩
    · exact ⟨_, .steps given, .stepCount _, fun p => by simp [isTerminated]⟩
    · exact ⟨_, .unimprovedSteps given, .unimprovedStepCount _, fun p => by simp [isTerminated]⟩
    · obtain ⟨text, given, literal⟩ := (literals target).1 wanted
      exact ⟨_, .bestScore given literal, tells_scoreAttained target⟩
  · cases criterion with
    | time given =>
      exact ⟨.timeSpent (limits.seconds.getD 0 * 1000000000 + limits.milliseconds.getD 0 * 1000000),
        by simp [given], .timeSpent _, fun p => by simp [isTerminated]⟩
    | @steps limit given =>
      exact ⟨.stepCount limit, by simp [given], .stepCount _, fun p => by simp [isTerminated]⟩
    | @unimprovedSteps limit given =>
      exact ⟨.unimprovedStepCount limit, by simp [given], .unimprovedStepCount _,
        fun p => by simp [isTerminated]⟩
    | @bestScore text target given literal =>
      have wanted : targets = some target := (literals target).2 ⟨text, given, literal⟩
      exact ⟨.scoreAttained target, by simp [wanted], tells_scoreAttained target⟩

/-- Of several settings those are built under which a limit is given. -/
theorem tellAll_nestedCriteria {cs : List TerminationSettings} (fits : ∀ c ∈ cs, ¬c.Overlong)
    (each : ∀ c ∈ cs, c.HasLimit → ∃ t : Termination sh, joinCriteria c = .ok t ∧
      t.Tells fun p => c.Stops p) :
    ∃ ts : List (Termination sh), nestedCriteria cs = .ok ts ∧
      TellAll ts fun met => ∃ c ∈ cs, c.HasLimit ∧ met = fun p => c.Stops p := by
  induction cs with
  | nil => exact ⟨[], rfl, by simp, by simp⟩
  | cons c rest ih =>
    rw [List.forall_mem_cons] at fits each
    obtain ⟨ts, nested, tell, told⟩ := ih fits.2 each.2
    obtain ⟨empty, known, same⟩ := isEmpty_eq c fits.1
    rw [nestedCriteria, known]
    cases empty with
    | true =>
      have noLimit := same.1 rfl
      refine ⟨ts, nested, fun t member => ?_, ?_⟩
      · obtain ⟨met, ⟨c', member, criterion⟩, tells⟩ := tell t member
        exact ⟨met, ⟨c', List.mem_cons_of_mem _ member, criterion⟩, tells⟩
      · rintro _ ⟨c', member, limit, rfl⟩
        rcases List.mem_cons.1 member with rfl | member
        · exact absurd limit noLimit
        · exact told _ ⟨c', member, limit, rfl⟩
    | false =>
      have limit : c.HasLimit := by simpa using same
      obtain ⟨t, joined, tells⟩ := each.1 limit
      simp only [joined, nested]
      refine ⟨t :: ts, rfl, List.forall_mem_cons.2 ⟨?_, fun t member => ?_⟩, ?_⟩
      · exact ⟨_, ⟨c, List.mem_cons_self, limit, rfl⟩, tells⟩
      · obtain ⟨met, ⟨c', member, criterion⟩, tells⟩ := tell t member
        exact ⟨met, ⟨c', List.mem_cons_of_mem _ member, criterion⟩, tells⟩
      · rintro _ ⟨c', member, limit', rfl⟩
        rcases List.mem_cons.1 member with rfl | member
        · exact ⟨t, List.mem_cons_self, tells⟩
        · obtain ⟨t', member', tells'⟩ := told _ ⟨c', member, limit', rfl⟩
          exact ⟨t', List.mem_cons_of_mem _ member', tells'⟩

theorem getD_or_eq_and {style : Option CompositionStyle} :
    style.getD .or = .and ↔ style = some .and := by
  rcases style with _ | (_ | _) <;> simp

theorem getD_or_eq_or {style : Option CompositionStyle} :
    style.getD .or = .or ↔ style ≠ some .and := by
  rcases style with _ | (_ | _) <;> simp

/-- A node stops a search if its criteria, own and nested, are met as its style says. -/
theorem stops_node {p : Progress sh} : Stops p (.node limits children) ↔
    match limits.style.getD .or with
    | .and => ∀ met, (limits.Criterion met ∨
        ∃ c ∈ children, c.HasLimit ∧ met = fun p => c.Stops p) → met p
    | .or => ∃ met, (limits.Criterion met ∨
        ∃ c ∈ children, c.HasLimit ∧ met = fun p => c.Stops p) ∧ met p := by
  constructor
  · intro stops
    cases stops with
    | all style own nested =>
      rw [style]
      rintro met (criterion | ⟨c, member, limit, rfl⟩)
      · exact own met criterion
      · exact nested c member limit
    | own style criterion reached =>
      have or : limits.style.getD .or = .or := getD_or_eq_or.2 style
      rw [or]
      exact ⟨_, .inl criterion, reached⟩
    | nested style member limit stops =>
      have or : limits.style.getD .or = .or := getD_or_eq_or.2 style
      rw [or]
      exact ⟨_, .inr ⟨_, member, limit, rfl⟩, stops⟩
  · intro reads
    cases joined : limits.style.getD .or with
    | and =>
      rw [joined] at reads
      have style : limits.style = some .and := getD_or_eq_and.1 joined
      exact .all style (fun met criterion => reads met (.inl criterion))
        fun c member limit => reads _ (.inr ⟨c, member, limit, rfl⟩)
    | or =>
      rw [joined] at reads
      have style : limits.style ≠ some .and := getD_or_eq_or.1 joined
      obtain ⟨met, criterion | ⟨c, member, limit, rfl⟩, reached⟩ := reads
      · exact .own style criterion reached
      · exact .nested style member limit reached

theorem exists_criterion (legible : ∀ text ∈ limits.bestScore, ∃ target, Score.read sh text = .ok target)
    (given : limits.IsGiven) : ∃ met : Progress sh → Prop, limits.Criterion met := by
  obtain given | given | given | given | given := given
  · exact ⟨_, .time (.inl given)⟩
  · exact ⟨_, .time (.inr given)⟩
  · obtain ⟨limit, given⟩ := Option.isSome_iff_exists.1 given
    exact ⟨_, .steps given⟩
  · obtain ⟨limit, given⟩ := Option.isSome_iff_exists.1 given
    exact ⟨_, .unimprovedSteps given⟩
  · obtain ⟨text, given⟩ := Option.isSome_iff_exists.1 given
    obtain ⟨target, literal⟩ := legible text given
    exact ⟨_, .bestScore given literal⟩

/-- Settings under which a limit is given are built as they read. -/
theorem tells_joinCriteria (c : TerminationSettings) (fits : ¬c.Overlong) (legible : c.Legible sh)
    (limit : c.HasLimit) : ∃ t : Termination sh, joinCriteria c = .ok t ∧
      t.Tells fun p => c.Stops p := by
  induction c using TerminationSettings.induction with
  | node limits children ih =>
    obtain ⟨literals, nestedLegible⟩ := legible
    obtain ⟨own, made, tellOwn⟩ := tellAll_ownCriteria fits literals
    obtain ⟨nested, made', tellNested⟩ := tellAll_nestedCriteria
      (fun c member => not_overlong_of_mem fits member)
      fun c member => ih c member (not_overlong_of_mem fits member) (nestedLegible c member)
    have some : ∃ met : Progress sh → Prop, limits.Criterion met ∨
        ∃ c ∈ children, c.HasLimit ∧ met = fun p => c.Stops p := by
      rcases hasLimit_node.1 limit with given | ⟨c, member, limit⟩
      · obtain ⟨met, criterion⟩ := exists_criterion literals given
        exact ⟨met, .inl criterion⟩
      · exact ⟨_, .inr ⟨c, member, limit, rfl⟩⟩
    have joined := (tellOwn.append tellNested).combine some (limits.style.getD .or)
    refine ⟨_, by rw [joinCriteria, made, made'], joined.filled, fun p => ?_⟩
    rw [joined.iff, stops_node]

/-- Settings whose time limits are not too long together and whose scores can be read are built:
there is no termination if no limit is given anywhere, and otherwise one that joins no empty list of
criteria and stops a search exactly where the settings say so. -/
theorem termination_reads (c : TerminationSettings) (fits : ¬c.Overlong) (legible : c.Legible sh) :
    ∃ made : Option (Termination sh), termination c = .ok made ∧ (made = none ↔ ¬c.HasLimit) ∧
      ∀ t ∈ made, t.Filled ∧ ∀ p, t.isTerminated p = true ↔ c.Stops p := by
  obtain ⟨empty, known, same⟩ := isEmpty_eq c fits
  rw [termination, validate_of_legible c legible, known]
  cases empty with
  | true => exact ⟨none, rfl, by simp [same.1 rfl], by simp⟩
  | false =>
    have limit : c.HasLimit := by simpa using same
    obtain ⟨t, joined, tells⟩ := tells_joinCriteria c fits legible limit
    refine ⟨some t, ?_, by simp [limit], ?_⟩
    · change (do return some (← joinCriteria c)) = _
      rw [joined]
      rfl
    · rintro _ ⟨⟩
      exact ⟨tells.filled, tells.iff⟩

/-- Settings with a step limit, a child that limits the time and one without any limit. -/
def stepsInTime : TerminationSettings :=
  .node { steps := some 3, style := some .and }
    [.node { style := some .and } [], .node { seconds := some 1, milliseconds := some 500 } []]

theorem termination_reads_stepsInTime :
    ¬stepsInTime.Overlong ∧ stepsInTime.Legible .simple ∧
      ∃ made : Option (Termination .simple), termination stepsInTime = .ok made ∧
        (made = none ↔ ¬stepsInTime.HasLimit) ∧
        ∀ t ∈ made, t.Filled ∧ ∀ p, t.isTerminated p = true ↔ stepsInTime.Stops p := by
  have fits : ¬stepsInTime.Overlong := by
    rintro (long | ⟨member, long⟩)
    · cases long
    · obtain rfl | rfl : _ ∨ _ := by simpa using member
      all_goals
        obtain long | ⟨member, -⟩ := long
        · cases long
        · cases member
  have legible : stepsInTime.Legible .simple := by
    refine .node (by simp) fun c member => ?_
    obtain rfl | rfl : _ ∨ _ := by simpa using member
    all_goals exact .node (by simp) (by simp)
  exact ⟨fits, legible, termination_reads stepsInTime fits legible⟩

end Assembly

end PlanSearch
