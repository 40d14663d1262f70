import PlanSearch.Config.Solver
import PlanSearch.Proofs.Fault

/-!
# Settings that have been checked

What is known of settings once their check has found nothing wrong.
-/

namespace PlanSearch.Config

theorem mapError_eq_ok {ε ε' α : Type} {x : Except ε α} {f : ε → ε'} {a : α} :
    x.mapError f = .ok a ↔ x = .ok a := by
  cases x with
  | error e => exact ⟨nofun, nofun⟩
  | ok b => exact ⟨fun h => congrArg _ (Except.ok.inj h), fun h => congrArg _ (Except.ok.inj h)⟩

theorem checkEach_eq_ok {α : Type} {check : α → Except Flaw Unit} {l : List α} :
    checkEach check l = .ok () ↔ ∀ a ∈ l, check a = .ok () := by
  induction l with
  | nil => exact ⟨fun _ => by simp, fun _ => rfl⟩
  | cons a rest ih =>
    rw [checkEach, List.forall_mem_cons, ← ih]
    cases check a with
    | error e => exact ⟨nofun, nofun⟩
    | ok u => exact ⟨fun h => ⟨rfl, h⟩, fun h => h.2⟩

theorem ne_zero_of_checkNotZero {name : String} {count : Option Nat} {u : Unit}
    (checked : checkNotZero name count = .ok u) : count ≠ some 0 := by
  intro zero
  rw [checkNotZero, if_pos zero] at checked
  cases checked

/-! ## Selections by distance -/

namespace NearbySettings

/-- No more than one family of distributions is given, none at all where nothing is drawn, and its
parameters are in their ranges. -/
structure Valid (c : NearbySettings) (isRandom : Bool) : Prop where
  family : ∃ family, c.family = .ok family ∧ (family.isSome → isRandom)
  ratio : ∀ x ∈ c.blockRatio, (0.0 ≤ x && x ≤ 1.0) = true
  uniform : ∀ x ∈ c.blockUniform, (0.0 ≤ x && x ≤ 1.0) = true
  block : ∀ a ∈ c.blockMinimum, ∀ b ∈ c.blockMaximum, a ≤ b
  linear : c.linearMaximum ≠ some 0
  parabolic : c.parabolicMaximum ≠ some 0
  blockMaximum : c.blockMaximum ≠ some 0
  alpha : ∀ x ∈ c.betaAlpha, 0.0 < x
  beta : ∀ x ∈ c.betaBeta, 0.0 < x

theorem positive_of_check {name : String} {o : Option Float}
    (checked : (match o with
      | some x => if 0.0 < x then .ok () else .error (.notPositive name x)
      | none => .ok () : Except Flaw Unit) = .ok ()) : ∀ x ∈ o, 0.0 < x := by
  rintro x rfl
  dsimp only at checked
  split at checked
  · assumption
  · cases checked

theorem share_of_check {name : String} {o : Option Float}
    (checked : (match o with
      | some x => if 0.0 ≤ x && x ≤ 1.0 then .ok () else .error (.outsideUnitInterval name x)
      | none => .ok () : Except Flaw Unit) = .ok ()) : ∀ x ∈ o, (0.0 ≤ x && x ≤ 1.0) = true := by
  rintro x rfl
  dsimp only at checked
  split at checked
  · assumption
  · cases checked

theorem counts_of_checks {c : NearbySettings} {alpha beta : Except Flaw Unit}
    (checked : (do
      checkNotZero "linear_distribution_size_maximum" c.linearMaximum
      checkNotZero "parabolic_distribution_size_maximum" c.parabolicMaximum
      checkNotZero "block_distribution_size_maximum" c.blockMaximum
      alpha
      beta) = .ok ()) :
    (c.linearMaximum ≠ some 0 ∧ c.parabolicMaximum ≠ some 0 ∧ c.blockMaximum ≠ some 0) ∧
      alpha = .ok () ∧ beta = .ok () := by
  obtain ⟨_, linear, checked⟩ := bind_eq_ok.1 checked
  obtain ⟨_, parabolic, checked⟩ := bind_eq_ok.1 checked
  obtain ⟨_, block, checked⟩ := bind_eq_ok.1 checked
  obtain ⟨_, alpha, beta⟩ := bind_eq_ok.1 checked
  exact ⟨⟨ne_zero_of_checkNotZero linear, ne_zero_of_checkNotZero parabolic,
    ne_zero_of_checkNotZero block⟩, alpha, beta⟩

theorem valid_of_validate {c : NearbySettings} {isRandom : Bool}
    (checked : c.validate isRandom = .ok ()) : c.Valid isRandom := by
  unfold NearbySettings.validate at checked
  by_cases origin : c.origin.isNone
  · rw [if_pos origin] at checked
    cases checked
  by_cases meter : c.meter.isNone
  · simp only [if_neg origin, if_pos meter] at checked
    cases checked
  simp only [if_neg origin, if_neg meter] at checked
  obtain ⟨family, one, checked⟩ := bind_eq_ok.1 checked
  by_cases unused : (family.isSome && !isRandom) = true
  · simp only [if_pos unused] at checked
    cases checked
  simp only [if_neg unused] at checked
  obtain ⟨_, ratio, checked⟩ := bind_eq_ok.1 checked
  obtain ⟨_, uniform, checked⟩ := bind_eq_ok.1 checked
  have bounds (a : Nat) (minimum : c.blockMinimum = some a) (b : Nat)
      (maximum : c.blockMaximum = some b) : a ≤ b := by
    refine Nat.le_of_not_lt fun crossed => ?_
    rw [minimum, maximum] at checked
    simp only [if_pos crossed] at checked
    cases checked
  have rest : (c.linearMaximum ≠ some 0 ∧ c.parabolicMaximum ≠ some 0 ∧ c.blockMaximum ≠ some 0) ∧
      (∀ x ∈ c.betaAlpha, 0.0 < x) ∧ ∀ x ∈ c.betaBeta, 0.0 < x := by
    split at checked
    · rename_i a b minimum maximum
      rw [if_neg (Nat.not_lt.2 (bounds a minimum b maximum))] at checked
      obtain ⟨counts, alpha, beta⟩ := counts_of_checks checked
      exact ⟨counts, positive_of_check alpha, positive_of_check beta⟩
    · obtain ⟨counts, alpha, beta⟩ := counts_of_checks checked
      exact ⟨counts, positive_of_check alpha, positive_of_check beta⟩
  obtain ⟨⟨linear, parabolic, blockMaximum⟩, alpha, beta⟩ := rest
  exact ⟨⟨family, one, by simpa using unused⟩, share_of_check ratio, share_of_check uniform,
    fun a minimum b maximum => bounds a minimum b maximum, linear, parabolic, blockMaximum, alpha, beta⟩

/-- What the check does not see: a parameter that is no finite number. A count that no word holds
cannot be read from any document. -/
def Unfit (c : NearbySettings) : Prop :=
  (∃ x ∈ c.betaAlpha, x.isFinite = false) ∨ (∃ x ∈ c.betaBeta, x.isFinite = false) ∨
    ∃ k ∈ c.blockMinimum, c.blockMaximum = none ∧ Count.max < k

section Distribution

variable {c : NearbySettings} {isRandom : Bool}

theorem exists_ofLinear {k : Option Nat} (positive : k ≠ some 0) :
    ∃ d, Nearby.Distribution.ofLinear (k.getD Count.max) = .ok d := by
  match k with
  | none => exact ⟨_, rfl⟩
  | some 0 => exact absurd rfl positive
  | some (k + 1) => exact ⟨_, rfl⟩

theorem exists_ofParabolic {k : Option Nat} (positive : k ≠ some 0) :
    ∃ d, Nearby.Distribution.ofParabolic (k.getD Count.max) = .ok d := by
  match k with
  | none => exact ⟨_, rfl⟩
  | some 0 => exact absurd rfl positive
  | some (k + 1) => exact ⟨_, rfl⟩

theorem finite_positive {o : Option Float} {x : Float} (positive : ∀ y ∈ o, 0.0 < y)
    (finite : ¬∃ y ∈ o, y.isFinite = false) (default : (x.isFinite && decide (0.0 < x)) = true) :
    ((o.getD x).isFinite && decide (0.0 < o.getD x)) = true := by
  cases o with
  | none => exact default
  | some y =>
    rw [Option.getD_some, Bool.and_eq_true, decide_eq_true_iff]
    refine ⟨?_, positive y rfl⟩
    by_cases known : y.isFinite = true
    · exact known
    · exact absurd ⟨y, rfl, Bool.not_eq_true _ ▸ known⟩ finite

theorem share_getD {o : Option Float} {x : Float} (inside : ∀ y ∈ o, (0.0 ≤ y && y ≤ 1.0) = true)
    (default : (0.0 ≤ x && x ≤ 1.0) = true) : (0.0 ≤ o.getD x && o.getD x ≤ 1.0) = true := by
  cases o with
  | none => exact default
  | some y => exact inside y rfl

theorem Valid.exists_ofBeta (valid : c.Valid isRandom) (fit : ¬c.Unfit) :
    ∃ d, Nearby.Distribution.ofBeta (c.betaAlpha.getD 1.0) (c.betaBeta.getD 5.0) = .ok d := by
  have alpha := finite_positive (x := 1.0) valid.alpha (fun h => fit (.inl h)) (by decide)
  have beta := finite_positive (x := 5.0) valid.beta (fun h => fit (.inr (.inl h))) (by decide)
  exact ⟨_, if_pos (Bool.and_eq_true_iff.2 ⟨alpha, beta⟩)⟩

theorem Valid.exists_ofBlock (valid : c.Valid isRandom) (fit : ¬c.Unfit) :
    ∃ d, Nearby.Distribution.ofBlock (c.blockMinimum.getD 1) (c.blockMaximum.getD Count.max)
      (c.blockRatio.getD 1.0) (c.blockUniform.getD 0.0) = .ok d := by
  have ordered : ¬c.blockMaximum.getD Count.max < c.blockMinimum.getD 1 := by
    have block := valid.block
    have positive := valid.blockMaximum
    have word : ¬∃ k ∈ c.blockMinimum, c.blockMaximum = none ∧ Count.max < k :=
      fun h => fit (.inr (.inr h))
    cases minimum : c.blockMinimum <;> cases maximum : c.blockMaximum <;>
      simp_all [Count.max]
  have ratio := share_getD (x := 1.0) valid.ratio (by decide)
  have uniform := share_getD (x := 0.0) valid.uniform (by decide)
  refine ⟨_, (if_neg ordered).trans ((if_neg ?_).trans (if_neg ?_))⟩
  · exact fun outside => by rw [Bool.not_eq_true'] at outside; cases outside.symm.trans ratio
  · exact fun outside => by rw [Bool.not_eq_true'] at outside; cases outside.symm.trans uniform

/-- Settings that have been checked describe a distribution, unless they are unfit. -/
theorem Valid.exists_distribution (valid : c.Valid isRandom) (fit : ¬c.Unfit) :
    ∃ d, c.distribution = .ok d := by
  obtain ⟨family, one, -⟩ := valid.family
  unfold distribution
  rw [one]
  cases family with
  | none => exact ⟨_, rfl⟩
  | some family =>
    cases family with
    | block => exact valid.exists_ofBlock fit
    | linear => exact exists_ofLinear valid.linear
    | parabolic => exact exists_ofParabolic valid.parabolic
    | beta => exact valid.exists_ofBeta fit

/-- The one family of which a parameter is given. -/
theorem family_eq (one : ∃ family, c.family = .ok family) {family : DistributionFamily}
    (given : family ∈ c.families) : c.family = .ok (some family) := by
  obtain ⟨family', one⟩ := one
  unfold NearbySettings.family at one ⊢
  match known : c.families with
  | [] =>
    rw [known] at given
    cases given
  | [only] =>
    rw [known, List.mem_singleton] at given
    rw [given]
  | _ :: _ :: _ =>
    rw [known] at one
    cases one

theorem beta_mem_families {x : Float} (given : x ∈ c.betaAlpha ∨ x ∈ c.betaBeta) :
    .beta ∈ c.families := by
  unfold families
  rcases given with given | given <;> rw [Option.mem_def] at given <;> simp [given]

theorem block_mem_families {k : Nat} (given : k ∈ c.blockMinimum) : .block ∈ c.families := by
  unfold families
  rw [Option.mem_def] at given
  simp [given]

theorem finite_of_ofBeta {a b : Float} {d : Nearby.Distribution}
    (made : Nearby.Distribution.ofBeta a b = .ok d) : a.isFinite = true ∧ b.isFinite = true := by
  unfold Nearby.Distribution.ofBeta at made
  split at made
  · rename_i sound
    obtain ⟨first, second⟩ := Bool.and_eq_true_iff.1 sound
    exact ⟨(Bool.and_eq_true_iff.1 first).1, (Bool.and_eq_true_iff.1 second).1⟩
  · cases made

/-- Unfit settings do not describe a distribution. -/
theorem not_unfit_of_distribution (one : ∃ family, c.family = .ok family) {d : Nearby.Distribution}
    (described : c.distribution = .ok d) : ¬c.Unfit := by
  rintro (⟨x, given, infinite⟩ | ⟨x, given, infinite⟩ | ⟨k, given, unbounded, above⟩)
  · rw [distribution, family_eq one (beta_mem_families (.inl given)), given] at described
    cases infinite.symm.trans (finite_of_ofBeta described).1
  · rw [distribution, family_eq one (beta_mem_families (.inr given)), given] at described
    cases infinite.symm.trans (finite_of_ofBeta described).2
  · rw [distribution, family_eq one (block_mem_families given), given, unbounded] at described
    dsimp only [Option.getD_some, Option.getD_none] at described
    rw [Nearby.Distribution.ofBlock, if_pos above] at described
    cases described

/-- Where nothing is drawn no distribution is unfit. -/
theorem Valid.not_unfit_of_listed (valid : c.Valid false) : ¬c.Unfit := by
  obtain ⟨family, one, unused⟩ := valid.family
  have absent (given : DistributionFamily) (member : given ∈ c.families) : False := by
    obtain rfl := Except.ok.inj (one.symm.trans (family_eq ⟨family, one⟩ member))
    cases unused rfl
  rintro (⟨x, given, -⟩ | ⟨x, given, -⟩ | ⟨k, given, -⟩)
  · exact absent _ (beta_mem_families (.inl given))
  · exact absent _ (beta_mem_families (.inr given))
  · exact absent _ (block_mem_families given)

end Distribution

end NearbySettings

/-! ## Selectors of entities and values -/

namespace SelectorSettings

variable {c : SelectorSettings} {enclosing : SelectionOrder}

/-- An order over whole lists comes with a cache. Candidates are ranked by distance without a cache,
either all of them or by drawn ranks. -/
structure Valid (c : SelectorSettings) (enclosing : SelectionOrder) : Prop where
  cached : (c.orderIn enclosing).needsCache → c.cache.isCached
  nearby : ∀ n ∈ c.nearby, c.cache.isCached = false ∧
    (c.orderIn enclosing = .listed ∧ n.validate false = .ok () ∨
      c.orderIn enclosing = .random ∧ n.validate true = .ok ())

theorem valid_of_validate (checked : c.validate enclosing = .ok ()) (own : c.mimic = none) :
    c.Valid enclosing := by
  unfold SelectorSettings.validate at checked
  simp only [own] at checked
  split at checked
  · cases checked
  · rename_i kept
    obtain ⟨_, -, checked⟩ := bind_eq_ok.1 checked
    obtain ⟨_, -, checked⟩ := bind_eq_ok.1 checked
    refine ⟨fun needs => by simpa [needs] using kept, fun n given => ?_⟩
    have checked := checkEach_eq_ok.1 checked n (Option.mem_toList.2 given)
    generalize c.orderIn enclosing = order at checked ⊢
    cases cache : c.cache <;> rw [cache] at checked <;> cases order <;> 
      first
      | exact ⟨rfl, .inl ⟨rfl, checked⟩⟩
      | exact ⟨rfl, .inr ⟨rfl, checked⟩⟩
      | cases checked

end SelectorSettings

/-! ## Selectors of moves -/

theorem ChangeSettings.of_validate {c : ChangeSettings} {enclosing : SelectionOrder}
    (checked : c.validate enclosing = .ok ()) :
    (∀ s ∈ c.entities, s.validate enclosing = .ok ()) ∧
      ∀ s ∈ c.values, s.validate enclosing = .ok () := by
  obtain ⟨_, entities, values⟩ := bind_eq_ok.1 checked
  exact ⟨fun s given => checkEach_eq_ok.1 entities s (Option.mem_toList.2 given),
    fun s given => checkEach_eq_ok.1 values s (Option.mem_toList.2 given)⟩

/-- The bounds make sense, and the selector of runs repeats no other one. -/
theorem SubChainSettings.of_validate {c : SubChainSettings} {enclosing : SelectionOrder}
    (checked : c.validate enclosing = .ok ()) :
    1 ≤ c.minimum ∧ c.minimum ≤ c.maximum ∧
      (∀ s ∈ c.runs, s.mimic = none ∧ s.validate enclosing = .ok ()) ∧
      ∀ s ∈ c.values, s.validate enclosing = .ok () := by
  unfold SubChainSettings.validate at checked
  by_cases empty : c.minimum < 1
  · rw [if_pos empty] at checked
    cases checked
  by_cases crossed : c.maximum < c.minimum
  · simp only [if_neg empty, if_pos crossed] at checked
    cases checked
  simp only [if_neg empty, if_neg crossed] at checked
  obtain ⟨_, runs, values⟩ := bind_eq_ok.1 checked
  refine ⟨by omega, by omega, fun s given => ?_,
    fun s given => checkEach_eq_ok.1 values s (Option.mem_toList.2 given)⟩
  have checked := checkEach_eq_ok.1 runs s (Option.mem_toList.2 given)
  change (if s.mimic.isSome || s.nearby.isSome || s.weight.isSome || s.sorter.isSome ||
    s.filter.isSome then .error .subChainSelector else s.validate enclosing) = .ok () at checked
  split at checked
  · cases checked
  · rename_i bare
    exact ⟨by simp_all, checked⟩

namespace MoveSelectorSettings

theorem validateAll_eq_ok {enclosing : SelectionOrder} {children : List MoveSelectorSettings} :
    validateAll enclosing children = .ok () ↔
      ∀ child ∈ children, child.validate enclosing = .ok () := by
  induction children with
  | nil => exact ⟨fun _ => by simp, fun _ => rfl⟩
  | cons child rest ih =>
    rw [validateAll, List.forall_mem_cons, ← ih]
    cases child.validate enclosing with
    | error e => exact ⟨nofun, nofun⟩
    | ok u => exact ⟨fun h => ⟨rfl, h⟩, fun h => h.2⟩

theorem validate_union {enclosing : SelectionOrder} {children : List MoveSelectorSettings}
    (checked : (union children).validate enclosing = .ok ()) :
    validateAll enclosing children = .ok () := by
  unfold MoveSelectorSettings.validate at checked
  split at checked
  · cases checked
  · exact checked

end MoveSelectorSettings

/-! ## Phases -/

theorem LocalSearchSettings.of_validate {c : LocalSearchSettings} (checked : c.validate = .ok ()) :
    (∀ a ∈ c.acceptor, a.validate = .ok ()) ∧ (∀ f ∈ c.forager, f.validate = .ok ()) ∧
      (∀ m ∈ c.moveSelector, m.validate .random = .ok ()) ∧
      ∀ t ∈ c.termination, t.validate = .ok () := by
  obtain ⟨_, acceptor, checked⟩ := bind_eq_ok.1 checked
  obtain ⟨_, forager, checked⟩ := bind_eq_ok.1 checked
  obtain ⟨_, moves, checked⟩ := bind_eq_ok.1 checked
  obtain ⟨_, termination, -⟩ := bind_eq_ok.1 checked
  exact ⟨fun a given => checkEach_eq_ok.1 acceptor a (Option.mem_toList.2 given),
    fun f given => checkEach_eq_ok.1 forager f (Option.mem_toList.2 given),
    fun m given => checkEach_eq_ok.1 moves m (Option.mem_toList.2 given),
    fun t given => checkEach_eq_ok.1 termination t (Option.mem_toList.2 given)⟩

theorem SolverSettings.of_validate {c : SolverSettings} (checked : c.validate = .ok ()) :
    (∀ t ∈ c.termination, t.validate = .ok ()) ∧ ∀ p ∈ c.phases, p.validate = .ok () := by
  obtain ⟨_, termination, phases⟩ := bind_eq_ok.1 checked
  exact ⟨fun t given => checkEach_eq_ok.1 termination t (Option.mem_toList.2 given),
    checkEach_eq_ok.1 phases⟩

/-! ## What the check misses -/

/-- The time limits of some node are too long together. -/
inductive TerminationSettings.Overlong : TerminationSettings → Prop
  | own {limits : Limits} {children : List TerminationSettings}
    (long : limits.time = .error .overflow) : Overlong (.node limits children)
  | nested {limits : Limits} {children : List TerminationSettings} {child : TerminationSettings}
    (member : child ∈ children) (long : Overlong child) : Overlong (.node limits children)

/-- Settings of entities or values that are in use somewhere in a selector of moves. -/
inductive MoveSelectorSettings.Uses : MoveSelectorSettings → SelectorSettings → Prop
  | entities {c : ChangeSettings} {s : SelectorSettings} (given : c.entities = some s) :
    Uses (.change c) s
  | values {c : ChangeSettings} {s : SelectorSettings} (given : c.values = some s) :
    Uses (.change c) s
  | targets {c : SubChainSettings} {s : SelectorSettings} (given : c.values = some s) :
    Uses (.subChainChange c) s
  | nested {children : List MoveSelectorSettings} {child : MoveSelectorSettings}
    {s : SelectorSettings} (member : child ∈ children) (uses : Uses child s) :
    Uses (.union children) s

/-- Some distribution of the selector is unfit. -/
def MoveSelectorSettings.Unfit (c : MoveSelectorSettings) : Prop :=
  ∃ s n, c.Uses s ∧ s.nearby = some n ∧ n.Unfit

/-- Some time limits are too long together. -/
def SolverSettings.Overlong (c : SolverSettings) : Prop :=
  (∃ t ∈ c.termination, t.Overlong) ∨ ∃ p ∈ c.phases, ∃ t ∈ p.termination, t.Overlong

/-- Some distribution is unfit. -/
def SolverSettings.Unfit (c : SolverSettings) : Prop :=
  ∃ p, .localSearch p ∈ c.phases ∧ ∃ m ∈ p.moveSelector, m.Unfit

end PlanSearch.Config
