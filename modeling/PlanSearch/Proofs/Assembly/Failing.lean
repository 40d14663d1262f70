import PlanSearch.Proofs.Assembly.Registered
import PlanSearch.Proofs.Assembly.Fit

/-!
# Why settings that have been checked cannot be built

The check of settings cannot tell what names stand for, and it does not read the scores that are
given as texts. Besides, it misses time limits that are too long together, and parameters of a
distribution that are infinite. There are no other reasons why a solver cannot be built.
-/

namespace PlanSearch

open Config

/-! ## Reasons -/

/-- The reason depends on what names stand for, or on what texts say. -/
def BuildError.Remains : BuildError → Prop
  | .selector (.unknownPlugin ..) | .selector (.unknownMimicId _) | .selector (.duplicateMimicId _)
  | .literal .. | .negativeTemperature _ | .zeroTemperature _
  | .noVariable | .ambiguousVariable _ | .plainVariable _ | .noGradient => True
  | _ => False

/-- A reason that remains, or one of the two that are missed, if there is an occasion for it. -/
def BuildError.Missed (overlong unfit : Prop) (e : BuildError) : Prop :=
  e.Remains ∨ overlong ∧ e = .fault .overflow ∨
    unfit ∧ ∃ reason, e = .selector (.invalidDistribution reason)

/-- If there is no value, it is for one of the given reasons. -/
def Fails {ε : Type} {α : Type u} (reasons : ε → Prop) (x : Except ε α) : Prop :=
  ∀ e, x = .error e → reasons e

namespace Fails

variable {ε : Type} {reasons : ε → Prop}

theorem ok {α : Type u} (a : α) : Fails reasons (.ok a) := by rintro e ⟨⟩

theorem error {α : Type u} {e : ε} (known : reasons e) :
    Fails reasons (.error e : Except ε α) := by
  rintro _ ⟨⟩
  exact known

theorem andThen {α : Type u} {β : Type v} {x : Except ε α} {f : α → Except ε β}
    (first : Fails reasons x) (rest : ∀ a, x = .ok a → Fails reasons (f a)) :
    Fails reasons (PlanSearch.andThen x f) := by
  cases x with
  | error e => exact error (first e rfl)
  | ok a => exact rest a rfl

theorem bind {α β : Type u} {x : Except ε α} {f : α → Except ε β} (first : Fails reasons x)
    (rest : ∀ a, x = .ok a → Fails reasons (f a)) : Fails reasons (x >>= f) := by
  cases x with
  | error e => exact error (first e rfl)
  | ok a => exact rest a rfl

theorem mapM {α β : Type} {f : α → Except ε β} {l : List α} (each : ∀ a, Fails reasons (f a)) :
    Fails reasons (l.mapM f) := by
  induction l with
  | nil => exact ok []
  | cons a rest ih =>
    rw [List.mapM_cons]
    exact (each a).bind fun _ _ => ih.bind fun _ _ => ok _

end Fails

namespace Assembly

/-! ## Terminations -/

section Terminations

variable {sh : Shape} {overlong unfit : Prop}

theorem eq_overflow_of_time {limits : Limits} {e : Fault} (failed : limits.time = .error e) :
    e = .overflow := by
  unfold Limits.time at failed
  split at failed
  · cases failed
  · dsimp only at failed
    split at failed
    · cases failed
    · exact (Except.error.inj failed).symm

mutual

theorem overlong_of_isEmpty {e : Fault} :
    ∀ c : TerminationSettings, c.isEmpty = .error e → e = .overflow ∧ c.Overlong
  | .node limits children, failed => by
    rw [TerminationSettings.isEmpty] at failed
    split at failed
    · rename_i long
      obtain rfl := Except.error.inj failed
      obtain rfl := eq_overflow_of_time long
      exact ⟨rfl, .own long⟩
    · split at failed
      · obtain ⟨same, child, member, long⟩ := overlong_of_areEmpty children failed
        exact ⟨same, .nested member long⟩
      · cases failed

theorem overlong_of_areEmpty {e : Fault} : ∀ cs : List TerminationSettings,
    TerminationSettings.areEmpty cs = .error e → e = .overflow ∧ ∃ c ∈ cs, c.Overlong
  | [], failed => by cases failed
  | c :: rest, failed => by
    rw [TerminationSettings.areEmpty] at failed
    split at failed
    · obtain ⟨same, child, member, long⟩ := overlong_of_areEmpty rest failed
      exact ⟨same, child, List.mem_cons_of_mem _ member, long⟩
    · obtain ⟨same, long⟩ := overlong_of_isEmpty c failed
      exact ⟨same, c, List.mem_cons_self, long⟩

end

theorem fails_scoreLimit (text : String) :
    Fails (BuildError.Missed overlong unfit)
      (scoreLimit text : Except BuildError (Termination sh)) := by
  unfold scoreLimit
  split
  · exact .ok _
  · exact .error (.inl trivial)

theorem fails_ownCriteria {limits : Limits} (long : limits.time = .error .overflow → overlong) :
    Fails (BuildError.Missed overlong unfit)
      (ownCriteria limits : Except BuildError (List (Termination sh))) := by
  refine Fails.bind (fun e failed => ?_) fun time _ => Fails.bind (fun e failed => ?_) fun _ _ => .ok _
  · cases timed : limits.time with
    | error f =>
      obtain rfl := eq_overflow_of_time timed
      rw [timed] at failed
      exact .inr (.inl ⟨long timed, (Except.error.inj failed).symm⟩)
    | ok time =>
      rw [timed] at failed
      cases failed
  · cases given : limits.bestScore with
    | none =>
      rw [given] at failed
      cases failed
    | some text =>
      rw [given] at failed
      cases scored : (scoreLimit text : Except BuildError (Termination sh)) with
      | error e' =>
        rw [Option.mapM_some, scored] at failed
        obtain rfl := Except.error.inj failed
        exact fails_scoreLimit text e' scored
      | ok target =>
        rw [Option.mapM_some, scored] at failed
        cases failed

mutual

theorem fails_joinCriteria : ∀ c : TerminationSettings, (c.Overlong → overlong) →
    Fails (BuildError.Missed overlong unfit) (joinCriteria c : Except BuildError (Termination sh))
  | .node limits children, long => by
    have own : Fails (BuildError.Missed overlong unfit)
        (ownCriteria limits : Except BuildError (List (Termination sh))) :=
      fails_ownCriteria fun h => long (.own h)
    have nested := fails_nestedCriteria children fun c member h => long (.nested member h)
    rw [joinCriteria]
    split
    · rename_i e failed
      exact .error (own e failed)
    · split
      · rename_i e failed
        exact .error (nested e failed)
      · exact .ok _

theorem fails_nestedCriteria : ∀ cs : List TerminationSettings,
    (∀ c ∈ cs, c.Overlong → overlong) → Fails (BuildError.Missed overlong unfit)
      (nestedCriteria cs : Except BuildError (List (Termination sh)))
  | [], _ => .ok _
  | c :: rest, long => by
    have first := fails_joinCriteria c (long c List.mem_cons_self)
    have others := fails_nestedCriteria rest fun c member => long c (List.mem_cons_of_mem _ member)
    rw [nestedCriteria]
    split
    · rename_i e failed
      obtain ⟨rfl, h⟩ := overlong_of_isEmpty c failed
      exact .error (.inr (.inl ⟨long c List.mem_cons_self h, rfl⟩))
    · exact others
    · split
      · rename_i e failed
        exact .error (first e failed)
      · split
        · rename_i e failed
          exact .error (others e failed)
        · exact .ok _

end

theorem fails_termination {c : TerminationSettings} (checked : c.validate = .ok ())
    (long : c.Overlong → overlong) :
    Fails (BuildError.Missed overlong unfit)
      (termination c : Except BuildError (Option (Termination sh))) := by
  refine Fails.bind (fun e failed => ?_) fun _ _ => Fails.bind (fun e failed => ?_) fun isEmpty _ => ?_
  · rw [checked] at failed
    cases failed
  · cases known : c.isEmpty with
    | error f =>
      obtain ⟨rfl, h⟩ := overlong_of_isEmpty c known
      rw [known] at failed
      exact .inr (.inl ⟨long h, (Except.error.inj failed).symm⟩)
    | ok empty =>
      rw [known] at failed
      cases failed
  · split
    · exact .ok _
    · exact (fails_joinCriteria c long).bind fun _ _ => .ok _

theorem fails_terminationIfAny {c : Option TerminationSettings}
    (checked : ∀ t ∈ c, t.validate = .ok ()) (long : ∀ t ∈ c, t.Overlong → overlong) :
    Fails (BuildError.Missed overlong unfit)
      (terminationIfAny c : Except BuildError (Option (Termination sh))) := by
  cases c with
  | none => exact .ok _
  | some c => exact fails_termination (checked c rfl) (long c rfl)

end Terminations

/-! ## Acceptors and foragers -/

section Acceptance

variable {S : Type} {sh : Shape} {overlong unfit : Prop}

theorem fails_check {x : Except Flaw Unit} {reasons : BuildError → Prop} (checked : x = .ok ()) :
    Fails reasons (x.mapError fun flaw => BuildError.config (.invalid flaw)) := by
  rw [checked]
  exact .ok ()

theorem fails_annealing (text : String) : Fails (BuildError.Missed overlong unfit)
    (annealing text : Except BuildError (Acceptor S sh)) := by
  unfold annealing
  split
  · exact .error (.inl trivial)
  · unfold Annealing.ofTemperature
    split
    · exact .error (.inl trivial)
    · split
      · exact .error (.inl trivial)
      · exact .ok _

theorem fails_acceptor {c : AcceptorSettings} (checked : c.validate = .ok ()) :
    Fails (BuildError.Missed overlong unfit) (acceptor c : Except BuildError (Acceptor S sh)) :=
  (fails_check checked).bind fun _ _ => (Fails.mapM fails_annealing).bind fun _ _ => .ok _

theorem fails_forager {c : ForagerSettings} (checked : c.validate = .ok ()) (a : Acceptor S sh) :
    Fails (BuildError.Missed overlong unfit) (forager c a : Except BuildError (Forager S sh)) :=
  (fails_check checked).bind fun _ _ => .ok _

theorem fails_acceptance {c : LocalSearchSettings}
    (acceptor : ∀ a ∈ c.acceptor, a.validate = .ok ())
    (forager : ∀ f ∈ c.forager, f.validate = .ok ()) (own whole : Option (Termination sh)) :
    Fails (BuildError.Missed overlong unfit)
      (acceptance c own whole : Except BuildError (Acceptor S sh × Forager S sh)) := by
  have checked : (c.acceptor.getD {}).validate = .ok () := by
    cases given : c.acceptor with
    | none => rfl
    | some a => exact acceptor a given
  have checked' : (c.forager.getD {}).validate = .ok () := by
    cases given : c.forager with
    | none => rfl
    | some f => exact forager f given
  refine (fails_acceptor checked).bind fun a _ => Fails.bind ?_ fun _ _ =>
    (fails_forager checked' a).bind fun _ _ => .ok _
  unfold checkGradient
  dsimp only
  split
  · exact .error (.inl trivial)
  · exact .ok _

end Acceptance

/-! ## Selectors -/

section Selectors

variable {S C : Type} {overlong unfit : Prop} {r : Registry S}

/-- If the part cannot be built, it is for one of the given reasons. -/
def Building.Fails {α : Type u} (reasons : BuildError → Prop) (x : Building α) : Prop :=
  ∀ rs, PlanSearch.Fails reasons (x rs)

namespace Building.Fails

variable {reasons : BuildError → Prop}

theorem pure {α : Type u} (a : α) : (Building.pure a).Fails reasons := fun _ => .ok _

theorem andThen {α : Type u} {β : Type v} {x : Building α} {f : α → Building β}
    (first : x.Fails reasons) (rest : ∀ a rs rs', x rs = .ok (a, rs') → (f a).Fails reasons) :
    (x.andThen f).Fails reasons := by
  intro rs
  unfold Building.andThen
  cases made : x rs with
  | error e => exact .error (first rs e made)
  | ok r => exact rest r.1 rs r.2 made r.2

theorem lift {α : Type u} {x : Except BuildError α} (h : PlanSearch.Fails reasons x) :
    (Building.lift x).Fails reasons := by
  intro rs
  cases x with
  | error e => exact .error (h e rfl)
  | ok a => exact .ok _

theorem ofSelector {α : Type u} {x : Except SelectorError α}
    (h : PlanSearch.Fails (fun e => reasons (.selector e)) x) :
    (Building.ofSelector x).Fails reasons := by
  intro rs
  cases x with
  | error e => exact .error (h e rfl)
  | ok a => exact .ok _

end Building.Fails

theorem fails_find_plugin {α : Type} (kind : String) (table : List (String × α)) (name : String) :
    Fails (fun e => BuildError.Missed overlong unfit (.selector e)) (Plugins.find kind table name) := by
  unfold Plugins.find
  split
  · exact .ok _
  · exact .error (.inl trivial)

theorem fails_find (name : Option String) :
    Fails (BuildError.Missed overlong unfit) (r.find name) := by
  unfold Registry.find
  split
  · split
    · exact .ok _
    · exact .error (.inl trivial)
  · split
    · exact .ok _
    · exact .error (.inl trivial)
    · exact .error (.inl trivial)

theorem fails_distribution (n : NearbySettings) :
    Fails (fun e => ∃ reason, e = .invalidDistribution reason) n.distribution := by
  intro e failed
  unfold NearbySettings.distribution at failed
  split at failed
  · exact ⟨_, (Except.error.inj failed).symm⟩
  · cases failed
  · generalize n.linearMaximum.getD Count.max = k at failed
    obtain _ | k := k
    · exact ⟨_, (Except.error.inj failed).symm⟩
    · cases failed
  · generalize n.parabolicMaximum.getD Count.max = k at failed
    obtain _ | k := k
    · exact ⟨_, (Except.error.inj failed).symm⟩
    · cases failed
  · unfold Nearby.Distribution.ofBeta at failed
    split at failed
    · cases failed
    · exact ⟨_, (Except.error.inj failed).symm⟩
  · unfold Nearby.Distribution.ofBlock at failed
    split at failed
    · exact ⟨_, (Except.error.inj failed).symm⟩
    · split at failed
      · exact ⟨_, (Except.error.inj failed).symm⟩
      · split at failed
        · exact ⟨_, (Except.error.inj failed).symm⟩
        · cases failed

/-- Settings that have been checked describe a distribution unless they are unfit. -/
theorem fails_drawn {n : NearbySettings} {isRandom : Bool}
    (checked : n.validate isRandom = .ok ()) (missed : n.Unfit → unfit) :
    Fails (fun e => BuildError.Missed overlong unfit (.selector e))
      (if isRandom then n.distribution.map some else .ok none) := by
  split
  · intro e failed
    cases described : n.distribution with
    | ok d =>
      rw [described] at failed
      cases failed
    | error e' =>
      rw [described] at failed
      obtain rfl := Except.error.inj failed
      have unfit : n.Unfit := by
        by_contra fit
        obtain ⟨d, known⟩ := (NearbySettings.valid_of_validate checked).exists_distribution fit
        rw [known] at described
        cases described
      obtain ⟨reason, rfl⟩ := fails_distribution n e' described
      exact .inr (.inr ⟨missed unfit, reason, rfl⟩)
  · exact .ok _

section Leaf

variable [Candidate C] {items : S → Array C}

theorem fails_find_recorder {α : Type u} (rs : Recorders) (id : String)
    (k : Recorder Memory C → α × Recorders) :
    Fails (BuildError.Missed overlong unfit) (match rs.find id with
      | .error e => .error (.selector e)
      | .ok recorder => .ok (k recorder)) := by
  unfold Recorders.find
  split
  · rename_i known
    split at known
    · cases known
    · obtain rfl := Except.error.inj known
      exact .error (.inl trivial)
  · exact .ok _

theorem fails_ranked {n : NearbySettings} {isRandom : Bool}
    (checked : n.validate isRandom = .ok ()) (missed : n.Unfit → unfit) :
    (ranked r (.source items false) n isRandom).Fails (BuildError.Missed overlong unfit) := by
  exact .andThen (fun rs => fails_find_recorder (C := C) rs _ _) fun recorder _ _ _ =>
    .andThen (.ofSelector (fails_find_plugin _ _ _)) fun meter _ _ _ =>
    .andThen (.ofSelector (fails_drawn checked missed)) fun distribution _ _ _ =>
    .ofSelector (.ok _)

omit [Candidate C] in
theorem fails_filtered (plugins : Plugins S C) (name : Option String) (sel : Selector Memory S C) :
    Fails (fun e => BuildError.Missed overlong unfit (.selector e)) (filtered plugins name sel) := by
  unfold filtered
  split
  · exact .ok _
  · exact .andThen (fails_find_plugin _ _ _) fun _ _ => .ok _

/-- A list can be made of candidates that end. -/
theorem checkCacheable_eq_ok {cache : CacheType} (cached : cache.isCached) (owner : String)
    (order : SelectionOrder) : Selector.checkCacheable owner order cache false = .ok () := by
  rw [Selector.checkCacheable, if_neg (by simp [cached]), if_neg (by simp)]

omit [Candidate C] in
theorem fails_ordered (plugins : Plugins S C) {c : SelectorSettings} {order : SelectionOrder}
    {sel : Selector Memory S C} (cached : order.needsCache → c.cache.isCached)
    (ends : c.cache.isCached → sel.neverEnding = false) :
    Fails (fun e => BuildError.Missed overlong unfit (.selector e))
      (ordered plugins c order sel) := by
  have kept (h : c.cache.isCached) (owner : String) (order : SelectionOrder) :
      Fails (fun e => BuildError.Missed overlong unfit (.selector e))
        (Selector.checkCacheable owner order c.cache sel.neverEnding) := by
    rw [ends h, checkCacheable_eq_ok h]
    exact .ok ()
  have plain : Fails (fun e => BuildError.Missed overlong unfit (.selector e))
      (if c.cache.isCached then sel.caching c.cache (order = .random) else .ok sel) := by
    split
    · exact (kept ‹_› _ _).andThen fun _ _ => .ok _
    · exact .ok _
  cases order with
  | sorted => exact .andThen (fails_find_plugin _ _ _) fun _ _ =>
      (kept (cached rfl) _ _).andThen fun _ _ => .ok _
  | probabilistic => exact .andThen (fails_find_plugin _ _ _) fun _ _ =>
      (kept (cached rfl) _ _).andThen fun _ _ => .ok _
  | shuffled => exact (kept (cached rfl) _ _).andThen fun _ _ => .ok _
  | inherit => exact plain
  | listed => exact plain
  | random => exact plain

omit [Candidate C] in
theorem neverEnding_of_filtered {plugins : Plugins S C} {name : Option String}
    {sel made : Selector Memory S C} (built : filtered plugins name sel = .ok made) :
    made.neverEnding = sel.neverEnding := by
  obtain ⟨-, rfl⟩ | ⟨-, -, -, -, rfl⟩ := cases_of_filtered built
  · rfl
  · rfl

theorem fails_recorded (id : Option String) (sel : Selector Memory S C) :
    (recorded id sel).Fails (BuildError.Missed overlong unfit) := by
  unfold recorded
  split
  · exact .pure _
  · refine .andThen (fun rs => ?_) fun _ _ _ _ => .pure _
    unfold Recorders.create
    split
    · rename_i known
      split at known
      · obtain rfl := Except.error.inj known
        exact .error (.inl trivial)
      · cases known
    · exact .ok _

/-- The candidates that are kept come from the solution, one after the other. -/
theorem fails_leaf {c : SelectorSettings} {enclosing : SelectionOrder}
    (checked : c.validate enclosing = .ok ()) (missed : ∀ n ∈ c.nearby, n.Unfit → unfit) :
    (leaf r items c enclosing).Fails (BuildError.Missed overlong unfit) := by
  refine .andThen (.lift (fails_check checked)) fun _ _ _ _ => ?_
  cases own : c.mimic with
  | some id =>
    intro rs
    exact fails_find_recorder (C := C) rs id fun recorder => (Selector.replaying recorder, rs)
  | none =>
    have valid := SelectorSettings.valid_of_validate checked own
    refine .andThen ?_ fun base rs rs₁ based => .andThen (.ofSelector (fails_filtered _ _ _))
      fun fewer rs₂ rs₃ accepted => .andThen (.ofSelector (fails_ordered _ valid.cached fun cached => ?_))
      fun _ _ _ _ => fails_recorded _ _
    · cases nearby : c.nearby with
      | none => exact .pure _
      | some n =>
        refine fails_ranked ?_ (missed n nearby)
        obtain ⟨-, ⟨order, checked⟩ | ⟨order, checked⟩⟩ := valid.nearby n nearby
        · rw [order]
          exact checked
        · rw [order]
          exact checked
    · rw [neverEnding_of_filtered (Building.ofSelector_eq_ok.1 accepted).1]
      cases nearby : c.nearby with
      | none =>
        rw [nearby] at based
        obtain ⟨rfl, -⟩ := Building.pure_eq_ok.1 based
        change (_ && !c.cache.isCached) = false
        rw [cached, Bool.not_true, Bool.and_false]
      | some n =>
        rw [(valid.nearby n nearby).1] at cached
        cases cached

end Leaf

/-! ## Moves -/

/-- Settings that are not given are without flaws. -/
theorem validate_getD {c : Option SelectorSettings}
    (checked : ∀ s ∈ c, s.validate .random = .ok ()) : (c.getD {}).validate .random = .ok () := by
  cases c with
  | none => rfl
  | some s => exact checked s rfl

theorem fails_changeSelector (v : RegisteredVariable S) (entities values : Option SelectorSettings)
    (checkedEntities : ∀ s ∈ entities, s.validate .random = .ok ())
    (checkedValues : ∀ s ∈ values, s.validate .random = .ok ())
    (missedEntities : ∀ s ∈ entities, ∀ n ∈ s.nearby, n.Unfit → unfit)
    (missedValues : ∀ s ∈ values, ∀ n ∈ s.nearby, n.Unfit → unfit) :
    (changeSelector r v (entities.getD {}) (values.getD {}) .random).Fails
      (BuildError.Missed overlong unfit) := by
  have missed {c : Option SelectorSettings} (h : ∀ s ∈ c, ∀ n ∈ s.nearby, n.Unfit → unfit) :
      ∀ n ∈ (c.getD {}).nearby, n.Unfit → unfit := by
    cases c with
    | none => simp
    | some s => exact h s rfl
  cases v with
  | plain v entityCount valueCount =>
    rw [changeSelector_plain]
    exact .andThen (fails_leaf (validate_getD checkedEntities) (missed missedEntities)) fun _ _ _ _ =>
      .andThen (fails_leaf (validate_getD checkedValues) (missed missedValues)) fun _ _ _ _ => .pure _
  | chained v entities values =>
    exact .andThen (fails_leaf (validate_getD checkedEntities) (missed missedEntities)) fun _ _ _ _ =>
      .andThen (fails_leaf (validate_getD checkedValues) (missed missedValues)) fun _ _ _ _ => .pure _

theorem fails_runSelector (v : ChainedVariable S) {c : SubChainSettings}
    (checked : c.validate .random = .ok ()) :
    Fails (fun e => BuildError.Missed overlong unfit (.selector e)) (runSelector v c .random) := by
  obtain ⟨atLeast, ordered, runs, -⟩ := SubChainSettings.of_validate checked
  have read (cache : CacheType) (isRandom : Bool) : ∃ sel : Selector Memory S SubChain,
      Selector.subChains v c.minimum c.maximum cache isRandom = .ok sel ∧
        sel.neverEnding = isRandom := by
    unfold Selector.subChains
    rw [if_neg (Nat.not_lt.2 atLeast), if_neg (Nat.not_lt.2 ordered)]
    exact ⟨_, rfl, rfl⟩
  have cached : ((c.runs.getD {}).orderIn .random).needsCache → (c.runs.getD {}).cache.isCached := by
    cases given : c.runs with
    | none => exact nofun
    | some s =>
      obtain ⟨own, checked⟩ := runs s given
      exact (SelectorSettings.valid_of_validate checked own).cached
  unfold runSelector
  dsimp only
  split
  · rename_i shuffled
    rw [shuffled] at cached
    obtain ⟨sel, made, ends⟩ := read (c.runs.getD {}).cache false
    refine .andThen (made ▸ .ok sel) fun sel' same => .andThen ?_ fun _ _ => .ok _
    obtain rfl := Except.ok.inj (made.symm.trans same)
    rw [ends, checkCacheable_eq_ok (cached rfl)]
    exact .ok ()
  · obtain ⟨sel, made, -⟩ := read (c.runs.getD {}).cache
      (decide ((c.runs.getD {}).orderIn .random = .random))
    rw [made]
    exact .ok sel

theorem fails_subChainSelector {c : SubChainSettings} (checked : c.validate .random = .ok ())
    (missed : ∀ s ∈ c.values, ∀ n ∈ s.nearby, n.Unfit → unfit) :
    (subChainSelector r c .random).Fails (BuildError.Missed overlong unfit) := by
  refine .andThen (.lift (fails_find _)) fun v _ _ _ => ?_
  cases v with
  | plain v entityCount valueCount => exact .lift (.error (.inl trivial))
  | chained v entities values =>
    obtain ⟨-, -, -, targets⟩ := SubChainSettings.of_validate checked
    refine .andThen (.ofSelector (fails_runSelector v checked)) fun _ _ _ _ =>
      .andThen (fails_leaf (validate_getD targets) ?_) fun _ _ _ _ => .pure _
    cases given : c.values with
    | none => simp
    | some s => exact missed s given

mutual

theorem fails_movesOf : ∀ c : MoveSelectorSettings, c.validate .random = .ok () →
    (c.Unfit → unfit) → (movesOf r .random c).Fails (BuildError.Missed overlong unfit)
  | .change c, checked, missed => by
    obtain ⟨entities, values⟩ := ChangeSettings.of_validate checked
    refine .andThen (.lift (fails_find _)) fun v _ _ _ => ?_
    refine fails_changeSelector v _ _ entities values ?_ ?_
    · exact fun s given n nearby h => missed ⟨s, n, .entities given, nearby, h⟩
    · exact fun s given n nearby h => missed ⟨s, n, .values given, nearby, h⟩
  | .subChainChange c, checked, missed => fails_subChainSelector checked
      fun s given n nearby h => missed ⟨s, n, .targets given, nearby, h⟩
  | .union children, checked, missed => by
    refine .andThen (fails_movesOfAll children (MoveSelectorSettings.validate_union checked)
      fun child member => ?_) fun _ _ _ _ => .pure _
    rintro ⟨s, n, uses, h⟩
    exact missed ⟨s, n, .nested member uses, h⟩

theorem fails_movesOfAll : ∀ cs : List MoveSelectorSettings,
    MoveSelectorSettings.validateAll .random cs = .ok () → (∀ c ∈ cs, c.Unfit → unfit) →
      (movesOfAll r .random cs).Fails (BuildError.Missed overlong unfit)
  | [], _, _ => .pure _
  | c :: rest, checked, missed => by
    obtain ⟨first, others⟩ := List.forall_mem_cons.1 (MoveSelectorSettings.validateAll_eq_ok.1 checked)
    obtain ⟨missed, missedRest⟩ := List.forall_mem_cons.1 missed
    exact .andThen (fails_movesOf c first missed) fun _ _ _ _ =>
      .andThen (fails_movesOfAll rest (MoveSelectorSettings.validateAll_eq_ok.2 others) missedRest)
        fun _ _ _ _ => .pure _

end

theorem fails_each {α : Type u} {β : Type v} {f : α → Building β} {reasons : BuildError → Prop}
    (each : ∀ a, (f a).Fails reasons) (l : List α) : (Building.each f l).Fails reasons := by
  induction l with
  | nil => exact .pure _
  | cons a rest ih => exact .andThen (each a) fun _ _ _ _ => .andThen ih fun _ _ _ _ => .pure _

theorem fails_defaultMoves :
    (defaultMoves r .random).Fails (BuildError.Missed overlong unfit) := by
  refine .andThen (fails_each (fun v => ?_) _) fun children _ _ _ => ?_
  · exact fails_changeSelector v none none (by simp) (by simp) (by simp) (by simp)
  · split
    · exact .lift (.error (.inl trivial))
    · exact .pure _
    · exact .pure _

theorem fails_moveSelector {c : Option MoveSelectorSettings}
    (checked : ∀ m ∈ c, m.validate .random = .ok ()) (missed : ∀ m ∈ c, m.Unfit → unfit) :
    Fails (BuildError.Missed overlong unfit) (moveSelector r c .random) := by
  unfold moveSelector
  cases c with
  | none => exact .andThen (fails_defaultMoves {}) fun _ _ => .ok _
  | some c =>
    have building : ((Building.check (c.validate .random)).andThen fun _ =>
        movesOf r .random c).Fails (BuildError.Missed overlong unfit) :=
      .andThen (.lift (fails_check (checked c rfl))) fun _ _ _ _ =>
        fails_movesOf c (checked c rfl) (missed c rfl)
    exact .andThen (building {}) fun _ _ => .ok _

end Selectors

/-! ## Solvers -/

section Solvers

variable {S : Type} {sh : Shape} {r : Registry S} {overlong unfit : Prop}

theorem fails_construction {c : ConstructionSettings}
    (checked : ∀ t ∈ c.termination, t.validate = .ok ())
    (long : ∀ t ∈ c.termination, t.Overlong → overlong) :
    Fails (BuildError.Missed overlong unfit)
      (construction r c : Except BuildError (Construction S sh)) :=
  (fails_find _).bind fun _ _ => (fails_terminationIfAny checked long).bind fun _ _ => .ok _

theorem fails_localSearch {c : LocalSearchSettings} (checked : c.validate = .ok ())
    (long : ∀ t ∈ c.termination, t.Overlong → overlong)
    (missed : ∀ m ∈ c.moveSelector, m.Unfit → unfit) (whole : Option (Termination sh)) :
    Fails (BuildError.Missed overlong unfit)
      (localSearch r whole c : Except BuildError (LocalSearch Memory S sh)) := by
  obtain ⟨acceptor, forager, moves, terminations⟩ := LocalSearchSettings.of_validate checked
  exact .andThen (fails_check checked) fun _ _ =>
    .andThen (fails_terminationIfAny terminations long) fun own _ =>
    .andThen (fails_moveSelector moves missed) fun _ _ =>
    .andThen (fails_acceptance acceptor forager own whole) fun _ _ => .ok _

theorem fails_phases {cs : List PhaseSettings} (checked : ∀ p ∈ cs, p.validate = .ok ())
    (long : ∀ p ∈ cs, ∀ t ∈ p.termination, t.Overlong → overlong)
    (missed : ∀ p, .localSearch p ∈ cs → ∀ m ∈ p.moveSelector, m.Unfit → unfit)
    (whole : Option (Termination sh)) :
    Fails (BuildError.Missed overlong unfit)
      (phases r whole cs : Except BuildError (List (Phase Memory S sh))) := by
  induction cs with
  | nil => exact .ok _
  | cons p rest ih =>
    obtain ⟨checked, checkedRest⟩ := List.forall_mem_cons.1 checked
    obtain ⟨long, longRest⟩ := List.forall_mem_cons.1 long
    refine .andThen ?_ fun _ _ => .andThen (ih checkedRest longRest fun p member =>
      missed p (List.mem_cons_of_mem _ member)) fun _ _ => .ok _
    cases p with
    | construction c =>
      have checked := checkEach_eq_ok.1 checked
      exact .andThen (fails_construction (fun t given => checked t (Option.mem_toList.2 given)) long)
        fun _ _ => .ok _
    | localSearch c =>
      exact .andThen (fails_localSearch checked long (missed c List.mem_cons_self) whole)
        fun _ _ => .ok _

/-- A solver whose settings have been checked can be built unless a name, the text of a score or the
termination of an annealing stands in the way, or something that the check misses. What it misses
always stands in the way. -/
theorem solver_fails {c : SolverSettings} (checked : c.validate = .ok ()) :
    Fails (BuildError.Missed c.Overlong c.Unfit)
        (solver r c : Except BuildError (Solver Memory S sh)) ∧
      (c.Overlong ∨ c.Unfit →
        ∃ e, (solver r c : Except BuildError (Solver Memory S sh)) = .error e) := by
  obtain ⟨terminations, parts⟩ := SolverSettings.of_validate checked
  constructor
  · refine .andThen (fails_check checked) fun _ _ =>
      .andThen (fails_terminationIfAny terminations fun t given h => .inl ⟨t, given, h⟩) fun whole _ =>
      .andThen ?_ fun _ _ => .ok _
    split
    · exact .andThen (fails_localSearch (by rfl) (by simp) (by simp) whole) fun _ _ => .ok _
    · exact fails_phases parts (fun p member t given h => .inr ⟨p, member, t, given, h⟩)
        (fun p member m given h => ⟨p, member, m, given, h⟩) whole
  · intro missed
    cases built : (solver r c : Except BuildError (Solver Memory S sh)) with
    | error e => exact ⟨e, rfl⟩
    | ok made =>
      obtain ⟨short, fit⟩ := fit_of_solver built
      exact absurd missed (not_or.2 ⟨short, fit⟩)

/-- A time limit above the longest duration. -/
def endless : SolverSettings where
  termination := some (.node { seconds := some Count.max, milliseconds := some 1000 } [])

/-- Colours by their distance from that of a bead, with an infinite parameter. -/
def skewed : SolverSettings where
  phases := [.localSearch {
    moveSelector := some (.change {
      variableName := some "colour"
      entities := some { id := some "here" }
      values := some { nearby := some {
        origin := some "here", meter := some "gap", betaAlpha := some (1.0 / 0.0) } } }) }]

/-- A necklace whose colours are all equally far from each other. -/
def equidistant : Registry ScoredNecklace :=
  { ScoredNecklace.registry with indices := { meters := [("gap", fun _ _ _ => .ok 1.0)] } }

theorem solver_fails_missed :
    (endless.validate = .ok () ∧ endless.Overlong ∧
      (solver equidistant endless : Except BuildError (Solver Memory ScoredNecklace .simple)) =
        .error (.fault .overflow)) ∧
    (skewed.validate = .ok () ∧ skewed.Unfit ∧ ∃ reason,
      (solver equidistant skewed : Except BuildError (Solver Memory ScoredNecklace .simple)) =
        .error (.selector (.invalidDistribution reason))) := by
  have refused : (solver equidistant endless :
      Except BuildError (Solver Memory ScoredNecklace .simple)) = .error (.fault .overflow) := rfl
  obtain ⟨reason, refused'⟩ : ∃ reason, (solver equidistant skewed :
      Except BuildError (Solver Memory ScoredNecklace .simple)) =
        .error (.selector (.invalidDistribution reason)) := ⟨_, rfl⟩
  have checked : endless.validate = .ok () := rfl
  have checked' : skewed.validate = .ok () := rfl
  refine ⟨⟨checked, ?_, refused⟩, checked', ?_, reason, refused'⟩
  · obtain remains | ⟨long, -⟩ | ⟨-, _, other⟩ := (solver_fails checked).1 _ refused
    · exact remains.elim
    · exact long
    · cases other
  · obtain remains | ⟨-, other⟩ | ⟨unfit, -⟩ := (solver_fails checked').1 _ refused'
    · exact remains.elim
    · cases other
    · exact unfit

end Solvers

end Assembly

end PlanSearch
