import PlanSearch.Proofs.Assembly.Building
import PlanSearch.Proofs.Assembly.Registered
import PlanSearch.Proofs.Config.Valid
import PlanSearch.Proofs.Selector.Arranged
import PlanSearch.Proofs.Selector.Memory
import PlanSearch.Proofs.Selector.Nearest

/-!
# The passes of selectors from settings

What a pass over entities or values yields, read off the settings: the candidates of the solution,
ranked by their distance from a remembered candidate, without those that a test refuses, in the order
that is asked for, and cut off at the limit. With a cache, the solution is that of the beginning of
the step or of the phase.
-/

namespace PlanSearch.Assembly

open Config Selector

variable {S C : Type} [Candidate C]

/-! ## Lists -/

section Lists

variable (r : Registry S) (items : S → Array C) (c : SelectorSettings)

/-- The candidates of the solution, by their distance from a remembered one where the settings say
so. -/
def Ranked (s : S) (m : Memory) (L : List C) : Prop :=
  match c.nearby with
  | none => L = (items s).toList
  | some n => ∃ meter, (Candidate.plugins r).meter (n.meter.getD "") = .ok meter ∧
      Nearest (Candidate.recorder (n.origin.getD "")) meter (fun s => (items s).toList) s m L

/-- Those that the named test accepts. -/
def Accepted (s : S) (near L : List C) : Prop :=
  match c.filter with
  | none => L = near
  | some name => ∃ accepts, (Candidate.plugins r).filter name = .ok accepts ∧
      L = near.filter (accepts s)

/-- The list in its own order, sorted by the named key, or rearranged. -/
def Arranged (order : SelectionOrder) (s : S) (accepted L : List C) : Prop :=
  match order with
  | .sorted => ∃ key, (Candidate.plugins r).sorter (c.sorter.getD "") = .ok key ∧
      SortedAs (InDirection (c.sorterDirection.getD .ascending) (key s)) accepted L
  | .shuffled => L.Perm accepted
  | _ => L = accepted

/-- As many as the settings allow. -/
def cut (L : List C) : List C :=
  match c.limit with
  | none => L
  | some limit => L.take limit

/-- The list of a pass, of the solution with which the cache was filled, or of the present one. -/
def Listed (order : SelectionOrder) (p : Point S) (now : S) (m : Memory) (L : List C) : Prop :=
  let s := (c.cache.filledWith p).getD now
  ∃ near accepted arranged, Ranked r items c s m near ∧ Accepted r c s near accepted ∧
    Arranged r c order s accepted arranged ∧ L = cut c arranged

end Lists

/-! ## What selectors are shown -/

/-- The solutions have no more candidates than the patience suffices for. Where candidates are ranked,
they and their distances stay as they were at the beginning of the phase. -/
structure Shown (r : Registry S) (items : S → Array C) (c : SelectorSettings) (p : Point S)
    (set : Setting S) : Prop where
  patient : (items set.solution).size < set.patience
  steady : ∀ n ∈ c.nearby, ∀ first ∈ p.first, items set.solution = items first ∧
    ∀ meter : S → Nearby.Meter C, (Candidate.plugins r).meter (n.meter.getD "") = .ok meter →
      meter set.solution = meter first

/-- The named functions have values for all candidates. -/
structure Measured (r : Registry S) (items : S → Array C) (c : SelectorSettings)
    (order : SelectionOrder) : Prop where
  keys : order = .sorted → ∀ key, (Candidate.plugins r).sorter (c.sorter.getD "") = .ok key →
    ∀ s, ∀ x ∈ items s, ∃ k, key s x = .ok k
  distances : ∀ n ∈ c.nearby, ∀ meter, (Candidate.plugins r).meter (n.meter.getD "") = .ok meter →
    ∀ s origin, ∀ x ∈ items s, ∃ d, meter s origin x = .ok d

/-! ## Layers -/

section Layers

variable {r : Registry S} {items : S → Array C} {c : SelectorSettings} {order : SelectionOrder}
variable {sel made : Selector Memory S C} {shown : Point S → Setting S → Prop}
variable {list : Point S → S → Memory → List C → Prop} {rs rs' : Recorders}

theorem serves_filtered (serves : Serves sel shown list) (ends : sel.neverEnding = false)
    (fits : ∀ p set m L, shown p set → list p set.solution m L → L.length < set.patience)
    (built : filtered (Candidate.plugins r) c.filter sel = .ok made) :
    made.neverEnding = false ∧ ∃ keep : S → List C → List C,
      (∀ s L, Accepted r c s L (keep s L) ∧ (keep s L).Sublist L) ∧
      Nonempty (Serves made shown fun p s m L => ∃ near, list p s m near ∧ L = keep s near) := by
  unfold Accepted
  obtain ⟨name, rfl⟩ | ⟨test, accepts, name, found, rfl⟩ := cases_of_filtered built
  · rw [name]
    refine ⟨ends, fun _ L => L, fun _ L => ⟨rfl, .refl L⟩, ⟨?_⟩⟩
    simpa using serves
  · rw [name]
    exact ⟨ends, fun s L => L.filter (accepts s),
      fun s L => ⟨⟨accepts, found, rfl⟩, List.filter_sublist⟩, ⟨servesFiltering accepts ends serves fits⟩⟩

theorem filledWith_of_uncached {cache : CacheType} (uncached : cache.isCached = false)
    (p : Point S) : cache.filledWith p = none := by
  cases cache with
  | justInTime => rfl
  | step => cases uncached
  | phase => cases uncached

theorem serves_ordered {candidates : S → List C}
    (serves : Serves sel shown fun _ s _ L => L = candidates s)
    (fits : ∀ p set, shown p set → (candidates set.solution).length < set.patience)
    (total : order = .sorted → ∀ key, (Candidate.plugins r).sorter (c.sorter.getD "") = .ok key →
      ∀ s, ∀ x ∈ candidates s, ∃ k, key s x = .ok k)
    (plain : order = .listed ∨ order = .sorted ∨ order = .shuffled)
    (built : ordered (Candidate.plugins r) c order sel = .ok made) :
    Nonempty (Serves made shown fun p now _ L => ∀ first began, p = .step first began →
      Arranged r c order ((c.cache.filledWith p).getD now)
        (candidates ((c.cache.filledWith p).getD now)) L) := by
  -- What holds of every solution that the cache is filled with holds in a step.
  have inStep {P : S → List C → Prop} (kept : c.cache.isCached ∧
      Nonempty (Serves made shown fun p _ _ L => ∀ s ∈ c.cache.filledWith p, P s L)) :
      Nonempty (Serves made shown fun p now _ L => ∀ first began, p = .step first began →
        P ((c.cache.filledWith p).getD now) L) := by
    obtain ⟨cached, ⟨serves⟩⟩ := kept
    refine ⟨serves.mono fun p now m L listed first began at_ => ?_⟩
    subst at_
    obtain ⟨s, filled⟩ := CacheType.exists_filledWith cached first began
    rw [filled]
    exact listed s filled
  have filled : Serves sel shown fun p s _ L => c.cache.filledWith p = some s → L = candidates s :=
    serves.mono fun _ _ _ _ same _ => same
  rcases plain with rfl | rfl | rfl
  · have built : (if c.cache.isCached then sel.caching c.cache false else .ok sel) = .ok made := built
    split at built
    · exact inStep (serves_caching filled fits built)
    · rename_i uncached
      obtain rfl := Except.ok.inj built
      refine ⟨serves.mono fun p now m L listed first began _ => ?_⟩
      rw [filledWith_of_uncached (Bool.not_eq_true _ ▸ uncached)]
      exact listed
  · obtain ⟨key, found, built⟩ := PlanSearch.andThen_eq_ok.1 built
    obtain ⟨sorted⟩ := inStep (serves_sorting filled fits (total rfl key found) built)
    exact ⟨sorted.mono fun p now m L listed first began at_ =>
      ⟨key, found, listed first began at_⟩⟩
  · exact inStep (serves_shuffling filled fits built)

variable (measured : Measured r items c order)
include measured

/-- Candidates are ranked by their distance from a candidate of another selector. -/
theorem serves_ranked {n : NearbySettings} (given : c.nearby = some n)
    (built : ranked r (.source items false) n false rs = .ok (sel, rs')) :
    rs' = rs ∧ n.origin.getD "" ∈ Candidate.ids C rs ∧ sel.neverEnding = false ∧
      Nonempty (Serves sel (Shown r items c) fun _ s m L => Ranked r items c s m L) := by
  obtain ⟨same, known, meter, distribution, chosen, undrawn, made⟩ := exists_of_ranked built
  obtain rfl := Option.isNone_iff_eq_none.1 (Option.isSome_eq_false_iff.1 undrawn)
  refine ⟨same, known, ?_, ?_⟩
  · cases made
    rfl
  · have fits (p : Point S) (set : Setting S) (shows : Shown r items c p set) :
        (items set.solution).toList.length < set.patience := by simpa using shows.patient
    have steady (p : Point S) (set : Setting S) (shows : Shown r items c p set) (first : S)
        (begun : first ∈ p.first) : (items set.solution).toList = (items first).toList ∧
          meter set.solution = meter first := by
      obtain ⟨sameItems, sameMeter⟩ := shows.steady n given first begun
      exact ⟨congrArg Array.toList sameItems, sameMeter meter chosen⟩
    obtain ⟨serves⟩ := serves_nearby (servesSource items) fits steady
      (fun s origin x member => measured.distances n given meter chosen s origin x (by simpa using member))
      made
    refine ⟨serves.mono fun p s m L nearest => ?_⟩
    unfold Ranked
    rw [given]
    exact ⟨meter, chosen, nearest⟩

omit measured in
theorem Ranked.length_le {s : S} {m : Memory} {L : List C} (ranked : Ranked r items c s m L) :
    L.length ≤ (items s).size := by
  unfold Ranked at ranked
  split at ranked
  · simp [ranked]
  · obtain ⟨meter, -, nearest⟩ := ranked
    unfold Nearest at nearest
    split at nearest
    · simp [nearest]
    · simp [nearest.perm.length_eq]

/-- The selector under the limit lists the candidates as the settings say. -/
theorem serves_kept {base fewer : Selector Memory S C}
    (plain : order = .listed ∨ order = .sorted ∨ order = .shuffled)
    (alone : ∀ n ∈ c.nearby, c.cache.isCached = false ∧ order = .listed)
    (based : (match c.nearby with
      | some n => ranked r (.source items false) n (decide (order = SelectionOrder.random))
      | none => .pure (.source items (decide (order = SelectionOrder.random) && !c.cache.isCached))) rs =
        .ok (base, rs'))
    (accepted : filtered (Candidate.plugins r) c.filter base = .ok fewer)
    (arranged : ordered (Candidate.plugins r) c order fewer = .ok made) :
    rs' = rs ∧ (∀ n ∈ c.nearby, n.origin.getD "" ∈ Candidate.ids C rs) ∧
      Nonempty (Serves made (Shown r items c) fun p now m L => ∀ first began,
        p = .step first began → let s := (c.cache.filledWith p).getD now
          ∃ near accepted, Ranked r items c s m near ∧ Accepted r c s near accepted ∧
            Arranged r c order s accepted L) := by
  have undrawn : decide (order = SelectionOrder.random) = false := by
    rcases plain with rfl | rfl | rfl <;> rfl
  rw [undrawn] at based
  cases nearby : c.nearby with
  | none =>
    rw [nearby] at based
    obtain ⟨rfl, rfl⟩ := Building.pure_eq_ok.1 based
    have fits (p : Point S) (set : Setting S) (shows : Shown r items c p set) :
        (items set.solution).toList.length < set.patience := by simpa using shows.patient
    obtain ⟨-, keep, keeps, ⟨serves⟩⟩ := serves_filtered (servesSource items) rfl
      (fun p set _ L shows same => same ▸ fits p set shows) accepted
    have serves := serves.mono fun p s m L (listed : ∃ near, near = (items s).toList ∧
      L = keep s near) => show L = keep s (items s).toList by
        obtain ⟨_, rfl, rfl⟩ := listed
        rfl
    have shorter (s : S) := (keeps s (items s).toList).2
    obtain ⟨serves⟩ := serves_ordered serves
      (fun p set shows => Nat.lt_of_le_of_lt (shorter set.solution).length_le (fits p set shows))
      (fun sorted key found s x member =>
        measured.keys sorted key found s x (by simpa using (shorter s).subset member)) plain arranged
    refine ⟨rfl, by simp, ⟨serves.mono fun p now m L listed first began at_ => ?_⟩⟩
    refine ⟨_, _, ?_, (keeps _ _).1, listed first began at_⟩
    unfold Ranked
    rw [nearby]
  | some n =>
    rw [nearby] at based
    obtain ⟨rfl, known, ends, ⟨serves⟩⟩ := serves_ranked measured nearby based
    obtain ⟨-, keep, keeps, ⟨serves⟩⟩ := serves_filtered serves ends
      (fun p set m L shows ranked => Nat.lt_of_le_of_lt ranked.length_le shows.patient) accepted
    obtain ⟨uncached, rfl⟩ := alone n nearby
    have same : (if c.cache.isCached then fewer.caching c.cache false else .ok fewer) = .ok made :=
      arranged
    rw [if_neg (by simp [uncached])] at same
    obtain rfl := Except.ok.inj same
    refine ⟨rfl, by simpa using known, ⟨serves.mono fun p now m L listed first began at_ => ?_⟩⟩
    obtain ⟨near, ranked, rfl⟩ := listed
    simp only [filledWith_of_uncached uncached]
    exact ⟨near, _, ranked, (keeps now near).1, rfl⟩

omit measured in
/-- The limit cuts the list that is under it. -/
theorem serves_cut {kept : Selector Memory S C}
    (serves : Serves kept shown fun p now m L => ∀ first began, p = .step first began →
      let s := (c.cache.filledWith p).getD now
      ∃ near accepted, Ranked r items c s m near ∧ Accepted r c s near accepted ∧
        Arranged r c order s accepted L) :
    Nonempty (Serves (match c.limit with
      | none => kept
      | some limit => kept.limited limit) shown fun p now m L =>
        ∀ first began, p = .step first began → Listed r items c order p now m L) := by
  unfold Listed cut
  cases c.limit with
  | none =>
    refine ⟨serves.mono fun p now m L listed first began at_ => ?_⟩
    obtain ⟨near, accepted, ranked, accepts, arranges⟩ := listed first began at_
    exact ⟨near, accepted, L, ranked, accepts, arranges, rfl⟩
  | some limit =>
    refine ⟨(servesLimited limit serves).mono fun p now m L listed first began at_ => ?_⟩
    obtain ⟨all, listed, rfl⟩ := listed
    obtain ⟨near, accepted, ranked, accepts, arranges⟩ := listed first began at_
    exact ⟨near, accepted, all, ranked, accepts, arranges, rfl⟩

end Layers

/-! ## Recorded candidates -/

/-- Candidates of a type are remembered in places of their own, one for each name in use. -/
class LawfulCandidate (C : Type) [Candidate C] : Prop where
  recorded_record : ∀ (id other : String) (c : Option C) (m : Memory),
    (Candidate.recorder id).recorded ((Candidate.recorder other).record c m) =
      if id = other then c else (Candidate.recorder id).recorded m
  mem_ids : ∀ {id : String} {rs : Recorders}, id ∈ Candidate.ids C rs →
    id ∈ rs.indices ∨ id ∈ rs.handles

instance : LawfulCandidate Nat where
  recorded_record id other c m := Recordings.get_set m.indices other id c
  mem_ids := .inl

instance : LawfulCandidate Handle where
  recorded_record id other c m := Recordings.get_set m.handles other id c
  mem_ids := .inr

section Recorded

variable {r : Registry S} {items : S → Array C} {c : SelectorSettings} {order : SelectionOrder}

/-- What a pass yields does not depend on the place of a name that is new. -/
theorem Ranked.of_record [LawfulCandidate C] {id : String} {s : S} {m : Memory} {L : List C}
    (apart : ∀ n ∈ c.nearby, n.origin.getD "" ≠ id)
    (ranked : Ranked r items c s ((Candidate.recorder id : Recorder Memory C).record none m) L) :
    Ranked r items c s m L := by
  unfold Ranked at ranked ⊢
  split at ranked
  · exact ranked
  · rename_i n given
    obtain ⟨meter, found, nearest⟩ := ranked
    refine ⟨meter, found, ?_⟩
    unfold Nearest at nearest ⊢
    rw [LawfulCandidate.recorded_record, if_neg (apart n given)] at nearest
    exact nearest

theorem Listed.of_record [LawfulCandidate C] {id : String} {p : Point S} {now : S} {m : Memory}
    {L : List C} (apart : ∀ n ∈ c.nearby, n.origin.getD "" ≠ id)
    (listed : Listed r items c order p now
      ((Candidate.recorder id : Recorder Memory C).record none m) L) :
    Listed r items c order p now m L := by
  obtain ⟨near, accepted, arranged, ranked, rest⟩ := listed
  exact ⟨near, accepted, arranged, ranked.of_record apart, rest⟩

/-- A name is new, and so it is not that of the candidate which others are ranked by. -/
theorem passes_recorded [LawfulCandidate C] {rs rs' : Recorders} {sel made : Selector Memory S C}
    (known : ∀ n ∈ c.nearby, n.origin.getD "" ∈ Candidate.ids C rs)
    (serves : Serves sel (Shown r items c) fun p now m L =>
      ∀ first began, p = .step first began → Listed r items c order p now m L)
    (built : recorded c.id sel rs = .ok (made, rs')) :
    made.Passes (c.id.map Candidate.recorder) (Shown r items c) (Listed r items c order) := by
  obtain ⟨name, rfl⟩ | ⟨id, name, rfl, new⟩ := exists_of_recorded built
  · rw [name]
    exact serves.passes.mono fun first began now m L listed => listed first began rfl
  · rw [name]
    have apart (n : NearbySettings) (given : n ∈ c.nearby) : n.origin.getD "" ≠ id := by
      rintro rfl
      exact new (LawfulCandidate.mem_ids (known n given))
    have passes := serves.passes_recording
      (fun m c => by rw [LawfulCandidate.recorded_record, if_pos rfl])
      (fun p now m L listed first began at_ => (listed first began at_).of_record apart)
    exact passes.mono fun first began now m L listed => listed first began rfl

end Recorded

/-- Whatever a search does, a selector of entities or values that does not draw at random accepts
what is announced to it, and its passes list the candidates as the settings say. Under its name it
remembers the candidate that it has yielded last. -/
theorem leaf_passes [LawfulCandidate C] {r : Registry S} {items : S → Array C}
    {c : SelectorSettings} {enclosing : SelectionOrder} {rs rs' : Recorders}
    {sel : Selector Memory S C} (built : leaf r items c enclosing rs = .ok (sel, rs'))
    (own : c.mimic = none)
    (plain : c.orderIn enclosing = .listed ∨ c.orderIn enclosing = .sorted ∨
      c.orderIn enclosing = .shuffled)
    (measured : Measured r items c (c.orderIn enclosing)) :
    sel.Passes (c.id.map Candidate.recorder) (Shown r items c)
      (Listed r items c (c.orderIn enclosing)) := by
  unfold leaf at built
  obtain ⟨_, rs₀, checked, rest⟩ := Building.andThen_eq_ok.1 built
  have valid : c.Valid enclosing :=
    SelectorSettings.valid_of_validate (mapError_eq_ok.1 (Building.lift_eq_ok.1 checked).1) own
  have alone (n : NearbySettings) (given : n ∈ c.nearby) :
      c.cache.isCached = false ∧ c.orderIn enclosing = .listed := by
    obtain ⟨uncached, ⟨listed, -⟩ | ⟨random, -⟩⟩ := valid.nearby n given
    · exact ⟨uncached, listed⟩
    · rw [random] at plain
      simp at plain
  simp only [own] at rest
  obtain ⟨base, rs₁, based, rest⟩ := Building.andThen_eq_ok.1 rest
  obtain ⟨fewer, rs₂, accepted, rest⟩ := Building.andThen_eq_ok.1 rest
  obtain ⟨kept, rs₃, arranged, last⟩ := Building.andThen_eq_ok.1 rest
  obtain ⟨accepted, same₂⟩ := Building.ofSelector_eq_ok.1 accepted
  obtain ⟨arranged, same₃⟩ := Building.ofSelector_eq_ok.1 arranged
  obtain ⟨same₁, known, ⟨serves⟩⟩ := serves_kept measured plain alone based accepted arranged
  obtain rfl := same₃.trans (same₂.trans same₁)
  obtain ⟨serves⟩ := serves_cut serves
  exact passes_recorded known serves last

/-- Two entities of even number, by their distance from one that is remembered elsewhere. -/
def neighbours : SelectorSettings where
  id := some "neighbour"
  filter := some "even"
  limit := some 2
  nearby := some { origin := some "here", meter := some "gap" }

/-- Entities of a necklace that can be filtered and ranked by their numbers. -/
def numbered : Registry ScoredNecklace where
  indices := {
    filters := [("even", fun _ e => e % 2 == 0)]
    meters := [("gap", fun _ a b => .ok (Float.ofNat ((a - b) + (b - a))))] }

theorem leaf_passes_neighbours : ∃ sel rs',
    leaf numbered (fun _ => Array.range 4) neighbours .listed { indices := ["here"] } =
      .ok (sel, rs') ∧
    sel.Passes (some (Candidate.recorder "neighbour"))
      (Shown numbered (fun _ => Array.range 4) neighbours)
      (Listed numbered (fun _ => Array.range 4) neighbours .listed) := by
  obtain ⟨sel, rs', built⟩ : ∃ sel rs', leaf numbered (fun _ => Array.range 4) neighbours .listed
      { indices := ["here"] } = .ok (sel, rs') := ⟨_, _, rfl⟩
  refine ⟨sel, rs', built, leaf_passes built rfl (.inl rfl) ⟨fun sorted => (by cases sorted), ?_⟩⟩
  intro n given meter found s origin x _
  obtain rfl := Option.some.inj given
  obtain rfl := Except.ok.inj found
  exact ⟨_, rfl⟩

end PlanSearch.Assembly
