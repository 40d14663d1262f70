import PlanSearch.Proofs.Assembly.Limited
import PlanSearch.Proofs.Assembly.RunMoves
import PlanSearch.Proofs.Selector.RangesRuns
import PlanSearch.Proofs.Selector.Roulette
import PlanSearch.Proofs.Selector.Weights

/-!
# The sizes of built selectors

The size of a built selector bounds the different candidates of each of its passes. There are two
exceptions. Runs that are kept for a phase in their order are those of the solution with which the
phase began, and their size is that of the present one. And a limit on values whose passes differ
counts the values of one pass, while entities that a limited selector draws anew can meet the values
of several.
-/

namespace PlanSearch

namespace Config.SelectorSettings

/-- The name under which the selector looks for a candidate of another one. -/
def looksAt (c : SelectorSettings) : Option String :=
  match c.mimic with
  | some id => some id
  | none => c.nearby.map fun n => n.origin.getD ""

/-- A limit is put on candidates that are drawn, so that the same can come again. -/
def Drawn (c : SelectorSettings) (enclosing : SelectionOrder) : Prop :=
  c.mimic = none ∧ c.limit.isSome ∧
    (c.orderIn enclosing = .random ∨ c.orderIn enclosing = .probabilistic)

/-- A limit is put on candidates that are not the same in every pass. -/
def Varied (c : SelectorSettings) (enclosing : SelectionOrder) : Prop :=
  c.mimic = none ∧ c.limit.isSome ∧ (c.orderIn enclosing = .random ∨
    c.orderIn enclosing = .probabilistic ∨ c.orderIn enclosing = .shuffled)

end Config.SelectorSettings

namespace Necklace

/-- Both beads on the second string, in opposite order. -/
def turned : Necklace :=
  ⟨⟨#[⟨.anchor, none, none⟩, ⟨.anchor, none, some ⟨3⟩⟩, ⟨.entity, some ⟨3⟩, none⟩,
    ⟨.entity, some ⟨1⟩, some ⟨2⟩⟩]⟩, .replicate 4 none⟩

/-- One bead on each string. -/
def parted : Necklace :=
  ⟨⟨#[⟨.anchor, none, some ⟨2⟩⟩, ⟨.anchor, none, some ⟨3⟩⟩, ⟨.entity, some ⟨0⟩, none⟩,
    ⟨.entity, some ⟨1⟩, none⟩]⟩, .replicate 4 none⟩

end Necklace

namespace Assembly

open Config Selector SubChains

variable {S C O : Type} {enclosing : SelectionOrder} {shown : Point S → Setting S → Prop}
variable {view : Memory → O}

/-! ## Entities and values -/

/-- What is seen tells which candidate is held. -/
def Tells (Held : O → Option C → Prop) : Prop := ∀ o x y, Held o x → Held o y → x = y

section Leaf

variable [Candidate C] {r : Registry S} {items : S → Array C} {c : SelectorSettings}
variable {rs rs' : Recorders} {sel made : Selector Memory S C} {Held : O → Option C → Prop}

variable (shown) in
theorem ranges_ranked {n : NearbySettings} {isRandom : Bool}
    (sees : ∀ m, Held (view m) ((Candidate.recorder (n.origin.getD "")).recorded m))
    (built : ranked r (.source items false) n isRandom rs = .ok (sel, rs')) :
    sel.neverEnding = isRandom ∧ ∃ ranges : sel.Ranges shown view,
      ranges.Suits (sel.neverEnding = false) (isRandom = false ∧ Tells Held) := by
  obtain ⟨-, -, meter, distribution, -, drawn, made⟩ := exists_of_ranked built
  obtain rfl := Except.ok.inj made
  refine ⟨drawn, ?_⟩
  cases distribution with
  | none =>
    exact ⟨rangesRanked Held sees,
      (suits_ranked Held sees).mono (fun _ => trivial) fun given => given.2⟩
  | some d =>
    obtain rfl : true = isRandom := drawn
    refine ⟨rangesRankedDrawn d, (suits_rankedDrawn d).mono (by rintro ⟨⟩) fun given => ?_⟩
    cases given.1

omit [Candidate C] in
theorem ranges_filtered {plugins : Plugins S C} {name : Option String} {counts lists : Prop}
    {ranges : sel.Ranges shown view} (suits : ranges.Suits counts lists)
    (built : filtered plugins name sel = .ok made) :
    made.neverEnding = sel.neverEnding ∧
      ∃ ranges : made.Ranges shown view, ranges.Suits counts lists := by
  obtain ⟨-, rfl⟩ | ⟨-, accepts, -, -, rfl⟩ := cases_of_filtered built
  · exact ⟨rfl, ranges, suits⟩
  · exact ⟨rfl, _, suits_filtering accepts suits⟩

/-- The order is kept from pass to pass. -/
def Straight (order : SelectionOrder) : Prop :=
  order ≠ .random ∧ order ≠ .probabilistic ∧ order ≠ .shuffled

omit [Candidate C] in
theorem ranges_ordered {plugins : Plugins S C} {order : SelectionOrder} {tells : Prop}
    {ranges : sel.Ranges shown view}
    (suits : ranges.Suits (sel.neverEnding = false) (order ≠ .random ∧ tells))
    (built : ordered plugins c order sel = .ok made) :
    (order ≠ .random → order ≠ .probabilistic → sel.neverEnding = false →
      made.neverEnding = false) ∧
    ∃ ranges : made.Ranges shown view,
      ranges.Suits (made.neverEnding = false) (Straight order ∧ tells) := by
  have kept (built : (if c.cache.isCached then sel.caching c.cache (order = .random) else .ok sel) =
      .ok made) : (order ≠ .random → sel.neverEnding = false → made.neverEnding = false) ∧
      ∃ ranges : made.Ranges shown view,
        ranges.Suits (made.neverEnding = false) (Straight order ∧ tells) := by
    split at built
    · obtain ⟨ranges, suits⟩ := suits_caching shown view built
      obtain ⟨-, -, built⟩ := PlanSearch.andThen_eq_ok.1 built
      obtain rfl := Except.ok.inj built
      exact ⟨fun other _ => decide_eq_false other, ranges,
        suits.mono id fun given => decide_eq_false given.1.1⟩
    · obtain rfl := Except.ok.inj built
      exact ⟨fun _ => id, ranges, suits.mono id fun given => ⟨given.1.1, given.2⟩⟩
  cases order with
  | sorted =>
    obtain ⟨key, -, built⟩ := PlanSearch.andThen_eq_ok.1 built
    obtain ⟨ranges, suits⟩ := suits_sorting shown view built
    obtain ⟨-, -, built⟩ := PlanSearch.andThen_eq_ok.1 built
    obtain rfl := Except.ok.inj built
    exact ⟨fun _ _ _ => rfl, ranges, suits.mono (fun _ => trivial) fun _ => trivial⟩
  | probabilistic =>
    obtain ⟨weight, -, built⟩ := PlanSearch.andThen_eq_ok.1 built
    obtain ⟨ranges, suits⟩ := suits_probability shown view built
    obtain ⟨-, -, built⟩ := PlanSearch.andThen_eq_ok.1 built
    obtain rfl := Except.ok.inj built
    exact ⟨fun _ other => absurd rfl other, ranges,
      suits.mono (by rintro ⟨⟩) fun given => given.1.2.1 rfl⟩
  | shuffled =>
    obtain ⟨ranges, suits⟩ := suits_shuffling shown view built
    obtain ⟨-, -, built⟩ := PlanSearch.andThen_eq_ok.1 built
    obtain rfl := Except.ok.inj built
    exact ⟨fun _ _ _ => rfl, ranges,
      suits.mono (fun _ => trivial) fun given => given.1.2.2 rfl⟩
  | inherit => exact ⟨fun listed _ => (kept built).1 listed, (kept built).2⟩
  | listed => exact ⟨fun listed _ => (kept built).1 listed, (kept built).2⟩
  | random => exact ⟨fun other => absurd rfl other, (kept built).2⟩

omit [Candidate C] in
/-- With a limit, the candidates of a pass are counted as before. They are the same for all passes
only if they are listed. -/
theorem ranges_cut {counts lists : Prop} {ranges : sel.Ranges shown view}
    (suits : ranges.Suits counts lists) (limit : Option Nat) {pools : Prop}
    (given : limit.isSome → pools → lists) :
    ∃ ranges : (match limit with
      | none => sel
      | some n => sel.limited n).Ranges shown view, ranges.Fits counts pools := by
  cases limit with
  | none => exact ⟨ranges, suits.fits pools⟩
  | some n => exact ⟨_, (fits_limited n suits).mono id (given rfl)⟩

/-- The passes of a selector of entities or values, as far as what it looks at is seen. -/
def Ranging (c : SelectorSettings) (enclosing : SelectionOrder) (shown : Point S → Setting S → Prop)
    (sel : Selector Memory S C) : Prop :=
  ∀ {O : Type} (view : Memory → O) (Held : O → Option C → Prop),
    (∀ id ∈ c.looksAt, ∀ m, Held (view m) ((Candidate.recorder id).recorded m)) →
    ∃ ranges : sel.Ranges shown view,
      ranges.Fits (sel.neverEnding = false ∧ ¬c.Drawn enclosing) (Tells Held ∧ ¬c.Varied enclosing)

theorem ranging_replaying {id : String} (mimic : c.mimic = some id) :
    Ranging c enclosing shown (replaying (Candidate.recorder id) : Selector Memory S C) := by
  intro O view Held sees
  have looks : id ∈ c.looksAt := by simp [SelectorSettings.looksAt, mimic]
  exact ⟨rangesReplaying _ Held (sees id looks),
    (fits_replaying _ Held (sees id looks)).mono (fun _ => trivial) fun given => given.1⟩

/-- The candidates before anything is left out or arranged. -/
theorem ranges_base (mimic : c.mimic = none) {base : Selector Memory S C}
    (sees : ∀ id ∈ c.looksAt, ∀ m, Held (view m) ((Candidate.recorder id).recorded m))
    (based : (match c.nearby with
      | some n => ranked r (.source items false) n (decide (c.orderIn enclosing = SelectionOrder.random))
      | none => .pure (.source items
          (decide (c.orderIn enclosing = SelectionOrder.random) && !c.cache.isCached))) rs =
        .ok (base, rs')) :
    (c.orderIn enclosing ≠ .random → base.neverEnding = false) ∧
      ∃ ranges : base.Ranges shown view,
        ranges.Suits (base.neverEnding = false) (c.orderIn enclosing ≠ .random ∧ Tells Held) := by
  cases nearby : c.nearby with
  | some n =>
    rw [nearby] at based
    have looks : n.origin.getD "" ∈ c.looksAt := by simp [SelectorSettings.looksAt, mimic, nearby]
    obtain ⟨random, ranges, suits⟩ := ranges_ranked shown (sees _ looks) based
    exact ⟨fun other => random.trans (decide_eq_false other), ranges,
      suits.mono id fun given => ⟨decide_eq_false given.1, given.2⟩⟩
  | none =>
    rw [nearby] at based
    obtain ⟨rfl, -⟩ := Building.pure_eq_ok.1 based
    obtain ⟨ranges, suits⟩ := suits_source shown view items
      (decide (c.orderIn enclosing = SelectionOrder.random) && !c.cache.isCached)
    have listed (other : c.orderIn enclosing ≠ .random) :
        (decide (c.orderIn enclosing = SelectionOrder.random) && !c.cache.isCached) = false := by
      rw [decide_eq_false other, Bool.false_and]
    exact ⟨listed, ranges, suits.mono id fun given => listed given.1⟩

omit [Candidate C] in
theorem straight_of_not_varied (mimic : c.mimic = none) (limited : c.limit.isSome)
    (fixed : ¬c.Varied enclosing) : Straight (c.orderIn enclosing) :=
  ⟨fun random => fixed ⟨mimic, limited, .inl random⟩,
    fun weighed => fixed ⟨mimic, limited, .inr (.inl weighed)⟩,
    fun shuffled => fixed ⟨mimic, limited, .inr (.inr shuffled)⟩⟩

theorem ranging_cut (mimic : c.mimic = none) {base fewer kept : Selector Memory S C}
    (based : (match c.nearby with
      | some n => ranked r (.source items false) n (decide (c.orderIn enclosing = SelectionOrder.random))
      | none => .pure (.source items
          (decide (c.orderIn enclosing = SelectionOrder.random) && !c.cache.isCached))) rs =
        .ok (base, rs'))
    (accepted : filtered (Candidate.plugins r) c.filter base = .ok fewer)
    (arranged : ordered (Candidate.plugins r) c (c.orderIn enclosing) fewer = .ok kept) :
    Ranging c enclosing shown (match c.limit with
      | none => kept
      | some n => kept.limited n) := by
  intro O view Held sees
  obtain ⟨ends, ranges, suits⟩ := ranges_base mimic sees based
  obtain ⟨same, ranges, suits⟩ := ranges_filtered suits accepted
  rw [← same] at suits
  obtain ⟨keeps, ranges, suits⟩ := ranges_ordered suits arranged
  obtain ⟨ranges, fits⟩ := ranges_cut suits c.limit
    fun limited (given : Tells Held ∧ ¬c.Varied enclosing) =>
      ⟨straight_of_not_varied mimic limited given.2, given.1⟩
  refine ⟨ranges, fits.mono (fun given => ?_) id⟩
  cases limit : c.limit with
  | none => simpa only [limit] using given.1
  | some n =>
    have limited : c.limit.isSome := limit ▸ rfl
    have drawn (order : SelectionOrder) (given' : order = .random ∨ order = .probabilistic) :
        c.orderIn enclosing ≠ order := by
      rintro rfl
      exact given.2 ⟨mimic, limited, given'⟩
    have other := drawn _ (.inl rfl)
    exact keeps other (drawn _ (.inr rfl)) (same.trans (ends other))

variable (shown) in
/-- A built selector remembers nothing, or it remembers what it yields where it does not look
itself. -/
theorem exists_of_leaf [LawfulCandidate C] (built : leaf r items c enclosing rs = .ok (sel, rs')) :
    ∃ core : Selector Memory S C, Ranging c enclosing shown core ∧
      (sel = core ∨ ∃ id, sel = core.recording (Candidate.recorder id) ∧ id ∉ c.looksAt) := by
  obtain ⟨id, mimic, rfl⟩ | ⟨mimic, base, rs₁, fewer, kept, based, accepted, arranged, last⟩ :=
    cases_of_leaf built
  · exact ⟨_, ranging_replaying mimic, .inl rfl⟩
  · refine ⟨_, ranging_cut mimic based accepted arranged, ?_⟩
    obtain ⟨-, rfl⟩ | ⟨id, -, rfl, new⟩ := exists_of_recorded last
    · exact .inl rfl
    · refine .inr ⟨id, rfl, fun looks => new (LawfulCandidate.mem_ids (C := C) ?_)⟩
      simp only [SelectorSettings.looksAt, mimic] at looks
      obtain ⟨n, nearby, rfl⟩ := Option.map_eq_some_iff.1 looks
      rw [nearby] at based
      obtain ⟨rfl, known, -⟩ := exists_of_ranked based
      exact known

variable (C) in
/-- What is seen of the memory by a selector that looks for a candidate under a name. -/
def seen (looked : Option String) (m : Memory) : Option C :=
  looked.bind fun id => (Candidate.recorder id).recorded m

variable [LawfulCandidate C]

theorem seen_record {looked : Option String} {id : String} (apart : id ∉ looked) (x : Option C)
    (m : Memory) : seen C looked ((Candidate.recorder id).record x m) = seen C looked m := by
  cases looked with
  | none => rfl
  | some other =>
    have other_ne : other ≠ id := fun same => apart (congrArg some same)
    exact (LawfulCandidate.recorded_record other id x m).trans (if_neg other_ne)

variable (shown) in
/-- The passes of a selector of values, as far as what it looks at is seen. -/
theorem ranges_leaf (built : leaf r items c enclosing rs = .ok (sel, rs')) :
    ∃ ranges : sel.Ranges shown (seen C c.looksAt),
      ranges.Fits (sel.neverEnding = false ∧ ¬c.Drawn enclosing) (¬c.Varied enclosing) := by
  obtain ⟨core, ranging, own⟩ := exists_of_leaf shown built
  obtain ⟨ranges, fits⟩ := ranging (seen C c.looksAt) (fun o x => x = o) fun id looks m => by
    obtain looks : c.looksAt = some id := looks
    rw [looks]
    rfl
  have fits : ranges.Fits (core.neverEnding = false ∧ ¬c.Drawn enclosing) (¬c.Varied enclosing) :=
    fits.mono id fun fixed => ⟨fun o x y same same' => same.trans same'.symm, fixed⟩
  obtain rfl | ⟨id, rfl, apart⟩ := own
  · exact ⟨ranges, fits⟩
  · exact ⟨_, fits_recording (fun x m => seen_record apart x m) fits⟩

variable (shown) in
/-- The passes of a selector of entities or values, whatever it sees. -/
theorem ranges_leaf_unseen (built : leaf r items c enclosing rs = .ok (sel, rs')) :
    ∃ ranges : sel.Ranges shown fun _ : Memory => (),
      ranges.Told ∧ ranges.Positive ∧ ranges.Bounded := by
  obtain ⟨core, ranging, own⟩ := exists_of_leaf shown built
  obtain ⟨ranges, fits⟩ := ranging (fun _ => ()) (fun _ _ => True) fun _ _ _ => trivial
  obtain rfl | ⟨id, rfl, apart⟩ := own
  · exact ⟨ranges, fits.told, fits.positive, fits.bounded⟩
  · exact ⟨rangesRecording ranges fun _ _ => rfl, fits.told,
      (fits_recording (fun _ _ => rfl) fits).positive, fits.bounded⟩

variable (shown) in
/-- The passes of a selector of entities, where values look under a name. They see the entity there,
or they see what they have seen before. -/
theorem leading_leaf (built : leaf r items c enclosing rs = .ok (sel, rs'))
    (looked : Option String) :
    ∃ told, ∃ leading : Leading sel shown (seen C looked) told,
      leading.Bounded ∧ (sel.neverEnding = false → ¬c.Drawn enclosing → leading.Counted) := by
  obtain ⟨core, ranging, own⟩ := exists_of_leaf shown built
  obtain ⟨blind, fits⟩ := ranging (fun _ => ()) (fun _ _ => True) fun _ _ _ => trivial
  obtain ⟨apart, -⟩ := ranging (seen C looked) (fun _ _ => True) fun _ _ _ => trivial
  obtain rfl | ⟨id, rfl, -⟩ := own
  · exact ⟨_, .unseen blind apart, Leading.bounded_unseen fits.bounded,
      fun ends plain => Leading.counted_unseen (fits.counted ⟨ends, plain⟩)⟩
  · by_cases looks : id ∈ looked
    · obtain rfl : looked = some id := looks
      have writes (e : C) (m : Memory) :
          seen C (some id) ((Candidate.recorder id).record (some e) m) = some e :=
        (LawfulCandidate.recorded_record id id (some e) m).trans (if_pos rfl)
      exact ⟨fun e _ => some e, .seen blind apart writes fun _ _ _ => rfl,
        Leading.bounded_seen writes _ fits.bounded,
        fun ends plain => Leading.counted_seen writes _ (fits.counted ⟨ends, plain⟩)⟩
    · exact ⟨_, .unseen (rangesRecording blind fun _ _ => rfl)
          (rangesRecording apart fun x m => seen_record looks x m),
        Leading.bounded_unseen fits.bounded,
        fun ends plain => Leading.counted_unseen (fits.counted ⟨ends, plain⟩)⟩

end Leaf

/-! ## Moves -/

/-- If the runs are kept for a phase in their order, there are never fewer of them than when the
phase began. -/
def RunsGrow (v : ChainedVariable S) (c : SubChainSettings) (enclosing : SelectionOrder)
    (shown : Point S → Setting S → Prop) : Prop :=
  (c.runs.getD {}).cache = .phase → (c.runs.getD {}).orderIn enclosing ≠ .shuffled →
    Grows v c.minimum c.maximum shown

mutual

/-- The sizes bound the passes: runs that are kept for a phase do not become fewer, and no limited
draws of entities meet limited values that differ from pass to pass. -/
def SizesHold (r : Registry S) (shown : Point S → Setting S → Prop) (enclosing : SelectionOrder) :
    MoveSelectorSettings → Prop
  | .change c => enclosing = .random ∨
      ¬((c.entities.getD {}).Drawn enclosing ∧ (c.values.getD {}).Varied enclosing)
  | .subChainChange c => ∀ v entities values,
      r.find c.variableName = .ok (.chained v entities values) → RunsGrow v c enclosing shown
  | .union children => AllSizesHold r shown enclosing children

def AllSizesHold (r : Registry S) (shown : Point S → Setting S → Prop)
    (enclosing : SelectionOrder) : List MoveSelectorSettings → Prop
  | [] => True
  | c :: rest => SizesHold r shown enclosing c ∧ AllSizesHold r shown enclosing rest

end

/-- In its own order a selector of moves tells how many moves a pass can have. At random it tells with
which weight it can be drawn. -/
def Measures (sel : Selector Memory S (Move S)) (shown : Point S → Setting S → Prop)
    (enclosing : SelectionOrder) : Prop :=
  (enclosing ≠ .random → Nonempty (Sized sel shown)) ∧
    (enclosing = .random → Steady shown → sel.Weighed shown)

section Moves

variable {r : Registry S} {rs rs' rs₁ rs₂ : Recorders} {sel : Selector Memory S (Move S)}

theorem measures_changes [Candidate C] [LawfulCandidate C] {itemsE itemsV : S → Array C}
    {entities values : SelectorSettings} {es vs : Selector Memory S C} {move : C → C → Move S}
    {name : String} (plain : enclosing = .random ∨
      ¬(entities.Drawn enclosing ∧ values.Varied enclosing))
    (builtE : leaf r itemsE entities enclosing rs = .ok (es, rs₁))
    (builtV : leaf r itemsV values enclosing rs₁ = .ok (vs, rs₂)) :
    Measures (.changes es vs (enclosing = .random) move name) shown enclosing := by
  constructor
  · intro listed
    rw [decide_eq_false listed]
    obtain ⟨ranges, fitsV⟩ := ranges_leaf shown builtV
    obtain ⟨told, leading, bounded, counted⟩ := leading_leaf shown builtE values.looksAt
    refine ⟨sizedChanges leading ranges (fun endsE _ => ?_) move name⟩
    by_cases drawn : entities.Drawn enclosing
    · have steady : ¬values.Varied enclosing := fun varied =>
        plain.elim listed fun apart => apart ⟨drawn, varied⟩
      exact .inr ⟨bounded, fitsV.pooled steady⟩
    · exact .inl ⟨counted endsE drawn, fitsV.bounded⟩
  · rintro rfl steady
    obtain ⟨rangesE, -, -, bounded⟩ := ranges_leaf_unseen shown builtE
    obtain ⟨rangesV, -, positive, -⟩ := ranges_leaf_unseen shown builtV
    exact weighed_changes steady bounded positive

theorem measures_changeSelector {v : RegisteredVariable S} {entities values : SelectorSettings}
    (plain : enclosing = .random ∨ ¬(entities.Drawn enclosing ∧ values.Varied enclosing))
    (built : changeSelector r v entities values enclosing rs = .ok (sel, rs')) :
    Measures sel shown enclosing := by
  cases v with
  | plain v entityCount valueCount =>
    obtain ⟨es, rs₁, vs, builtE, builtV, rfl⟩ := exists_of_changeSelector_plain built
    exact measures_changes plain builtE builtV
  | chained v entityHandles valueHandles =>
    obtain ⟨es, rs₁, vs, builtE, builtV, rfl⟩ := exists_of_changeSelector_chained built
    exact measures_changes plain builtE builtV

/-- The passes of the runs that settings ask for. There is a size in every step, unless the runs are
counted that there are by then, and they are too many for a word. -/
theorem ranges_runSelector {v : ChainedVariable S} {c : SubChainSettings}
    {runs : Selector Memory S SubChain} (grow : RunsGrow v c enclosing shown)
    (built : runSelector v c enclosing = .ok runs) (view : Memory → O) :
    ∃ ranges : runs.Ranges shown view,
      ranges.Bounded ∧ (runs.neverEnding = false → ranges.Counted) ∧
      ∀ {first now st}, ranges.Inv (.step first now) st →
        RunsFit c.minimum c.maximum (v.graph now) → ∃ k, runs.size now st = .ok k := by
  rcases cases_of_runSelector built with ⟨-, base, -, built⟩ | ⟨other, built⟩
  · obtain ⟨ranges, suits⟩ := suits_shuffling shown view built
    exact ⟨ranges, Ranges.Pooled.bounded suits.pooled, fun _ => suits.counted trivial,
      fun known _ => suits.told known⟩
  · obtain ⟨ranges, bounded, counted⟩ :=
      ranges_subChains view (fun kept => grow kept other) built
    exact ⟨ranges, bounded, fun ends => counted ((neverEnding_subChains built).symm.trans ends),
      fun _ fit => ⟨_, (size_subChains built _ _).1 fit⟩⟩

/-- Runs that are kept for a phase are all found again in a later step, where the size counts those
that there are by then. -/
theorem exists_passing_kept {v : ChainedVariable S} {c : SubChainSettings}
    {runs : Selector Memory S SubChain} (built : runSelector v c enclosing = .ok runs)
    (kept : (c.runs.getD {}).cache = .phase)
    (inOrder : (c.runs.getD {}).orderIn enclosing ≠ .shuffled)
    (listed : (c.runs.getD {}).orderIn enclosing ≠ .random) {first now : S} {patience : Nat}
    (valid : (v.graph first).validate = .ok ()) (begins : shown (.phase first) ⟨first, patience⟩)
    (steps : shown (.step first now) ⟨now, patience⟩) :
    ∃ begun st m cs, runs.Passing shown Eq first now begun st m cs ∧
      HingesOn (RunsFit c.minimum c.maximum (v.graph now))
        (runsIn c.minimum c.maximum (v.graph now)).length (runs.size now begun) ∧
      {x | x ∈ cs}.ncard = (runsIn c.minimum c.maximum (v.graph first)).length := by
  obtain ⟨-, built⟩ := (cases_of_runSelector built).resolve_left fun shuffled => inOrder shuffled.1
  rw [kept, decide_eq_false listed] at built
  obtain ⟨positive, -⟩ := bounded_of_subChains built
  have nodup : (runsIn c.minimum c.maximum (v.graph first)).Nodup :=
    nodup_runsIn positive (ChainGraph.validate_eq_ok_iff.1 valid)
  obtain ⟨serves⟩ := serves_subChains shown built
  let w : World Memory := ⟨.ofSeed 0, {}⟩
  have phase : Point.idle.after .phaseStarted first = some (.phase first) := rfl
  have step : (Point.phase first).after .stepStarted now = some (.step first now) := rfl
  obtain ⟨st₁, g₁, ran₁, known⟩ := serves.handle serves.start phase begins w
  obtain ⟨st₂, g₂, ran₂, known⟩ := serves.handle known step steps ⟨g₁, {}⟩
  obtain ⟨begun, g₃, L, ran₃, ⟨-, filled⟩, -, supplies⟩ :=
    serves.restart known rfl steps ⟨g₂, {}⟩
  obtain rfl := filled first rfl
  have reached : runs.Reached shown (.step first now) false st₂ :=
    .announced (.announced .start phase begins ran₁) step steps ran₂
  obtain ⟨st, passing⟩ := Passing.supplied (fun _ => rfl) steps (.start reached steps ran₃) supplies
  refine ⟨begun, st, _, _, passing, size_subChains built now begun, ?_⟩
  classical
  rw [List.nil_append, ← List.toFinset_card_of_nodup nodup, ← Set.ncard_coe_finset,
    List.coe_toFinset]

theorem measures_subChainSelector {c : SubChainSettings}
    (grow : ∀ v entities values, r.find c.variableName = .ok (.chained v entities values) →
      RunsGrow v c enclosing shown)
    (built : subChainSelector r c enclosing rs = .ok (sel, rs')) : Measures sel shown enclosing := by
  obtain ⟨v, _, _, runs, values, found, builtR, builtV, rfl⟩ := exists_of_subChainSelector built
  have grow := grow _ _ _ found
  obtain ⟨blind, bounded, counted, -⟩ := ranges_runSelector grow builtR fun _ => ()
  constructor
  · intro listed
    rw [decide_eq_false listed]
    obtain ⟨ranges, fitsV⟩ := ranges_leaf shown builtV
    obtain ⟨apart, -⟩ := ranges_runSelector grow builtR (seen Handle (c.values.getD {}).looksAt)
    exact ⟨sizedSubChainChanges (.unseen blind apart) ranges _ fun endsR _ =>
      .inl ⟨Leading.counted_unseen (counted endsR), fitsV.bounded⟩⟩
  · rintro rfl steady
    obtain ⟨rangesV, -, positive, -⟩ := ranges_leaf_unseen shown builtV
    exact weighed_subChainChanges steady bounded positive

/-- A union of selectors that measure their passes measures its own. -/
theorem measures_union {children : List (Selector Memory S (Move S))}
    (each : ∀ child ∈ children, Measures child shown enclosing) :
    Measures (.union children (enclosing = .random)) shown enclosing := by
  constructor
  · intro listed
    rw [decide_eq_false listed]
    exact sized_union fun child member => (each child member).1 listed
  · rintro rfl steady
    exact weighed_union (fun child member => (each child member).2 rfl steady) steady

end Moves

mutual

theorem measures_movesOf {r : Registry S} (c : MoveSelectorSettings) {rs rs' : Recorders}
    {sel : Selector Memory S (Move S)} (hold : SizesHold r shown enclosing c)
    (built : movesOf r enclosing c rs = .ok (sel, rs')) : Measures sel shown enclosing := by
  cases c with
  | change c =>
    obtain ⟨v, rs₁, -, built⟩ := Building.andThen_eq_ok.1 built
    exact measures_changeSelector hold built
  | subChainChange c => exact measures_subChainSelector hold built
  | union children =>
    rw [movesOf] at built
    obtain ⟨sels, rs₁, each, built⟩ := Building.andThen_eq_ok.1 built
    obtain ⟨rfl, -⟩ := Building.pure_eq_ok.1 built
    exact measures_union (measures_movesOfAll children hold each)

theorem measures_movesOfAll {r : Registry S} (cs : List MoveSelectorSettings) {rs rs' : Recorders}
    {sels : List (Selector Memory S (Move S))} (hold : AllSizesHold r shown enclosing cs)
    (built : movesOfAll r enclosing cs rs = .ok (sels, rs')) :
    ∀ sel ∈ sels, Measures sel shown enclosing := by
  cases cs with
  | nil =>
    obtain ⟨rfl, -⟩ := Building.pure_eq_ok.1 built
    simp
  | cons c rest =>
    obtain ⟨sel, rs₁, sels, first, others, rfl⟩ := movesOfAll_cons_eq_ok.1 built
    exact List.forall_mem_cons.2
      ⟨measures_movesOf c hold.1 first, measures_movesOfAll rest hold.2 others⟩

end

section Built

variable {r : Registry S} {rs rs' : Recorders} {sel : Selector Memory S (Move S)}

/-- Without settings there are no limits. -/
theorem measures_defaultChange {v : RegisteredVariable S}
    (built : changeSelector r v {} {} enclosing rs = .ok (sel, rs')) :
    Measures sel shown enclosing :=
  measures_changeSelector (.inr fun limits => by cases limits.1.2.1) built

theorem measures_defaultMoves (built : defaultMoves r enclosing rs = .ok (sel, rs')) :
    Measures sel shown enclosing :=
  of_defaultMoves measures_defaultChange measures_union built

/-- A selector of moves that is built from settings whose sizes hold, or without any settings. -/
inductive Built (r : Registry S) (shown : Point S → Setting S → Prop) (enclosing : SelectionOrder)
    (sel : Selector Memory S (Move S)) : Prop
  | settings {c : MoveSelectorSettings} {rs rs' : Recorders} (hold : SizesHold r shown enclosing c)
    (built : movesOf r enclosing c rs = .ok (sel, rs'))
  | defaults {rs rs' : Recorders} (built : defaultMoves r enclosing rs = .ok (sel, rs'))

/-- Selectors of moves that are built as the children of a union. -/
inductive BuiltAll (r : Registry S) (shown : Point S → Setting S → Prop)
    (enclosing : SelectionOrder) (children : List (Selector Memory S (Move S))) : Prop
  | settings {cs : List MoveSelectorSettings} {rs rs' : Recorders}
    (hold : AllSizesHold r shown enclosing cs)
    (built : movesOfAll r enclosing cs rs = .ok (children, rs'))
  | defaults {rs rs' : Recorders} (built :
      Building.each (fun v => changeSelector r v {} {} enclosing) r.vars rs = .ok (children, rs'))

theorem Built.of_moveSelector {c : Option MoveSelectorSettings}
    (hold : ∀ m ∈ c, SizesHold r shown enclosing m) (built : moveSelector r c enclosing = .ok sel) :
    Built r shown enclosing sel := by
  rcases cases_of_moveSelector built with ⟨-, _, _, made⟩ | ⟨c, _, _, rfl, made⟩
  · exact .defaults made
  · exact .settings (hold c rfl) made

theorem Built.measures (built : Built r shown enclosing sel) : Measures sel shown enclosing := by
  cases built with
  | settings hold built => exact measures_movesOf _ hold built
  | defaults built => exact measures_defaultMoves built

theorem BuiltAll.measures {children : List (Selector Memory S (Move S))}
    (built : BuiltAll r shown enclosing children) :
    ∀ child ∈ children, Measures child shown enclosing := by
  cases built with
  | settings hold built => exact measures_movesOfAll _ hold built
  | defaults built => exact Building.of_each measures_defaultChange built

theorem Built.neverEnding (built : Built r shown .random sel) : sel.neverEnding = true := by
  cases built with
  | settings _ built => exact neverEnding_movesOf _ built
  | defaults built => exact neverEnding_defaultMoves built

end Built

/-- Within a step, no pass of a built selector yields more different candidates than its size says
when the pass begins, if there is a size that fits a word. This holds of entities and values whatever
others remember between two draws, and of runs that do not become fewer in a phase. It holds of moves
that are gone through in order, whatever they are built of, if the sizes of runs and limits hold. In
random order a child that yields a move has a positive size, and there is a number for which it is
drawn. Runs that a phase keeps in their order can become more than their size says: a pass yields as
many as there were when the phase began. -/
theorem passes_within_sizes (r : Registry S) (enclosing : SelectionOrder)
    (shown : Point S → Setting S → Prop) (steady : Steady shown) :
    (∀ (C : Type) [Candidate C] [LawfulCandidate C] (items : S → Array C) (c : SelectorSettings)
      (rs rs' : Recorders) (sel : Selector Memory S C),
      leaf r items c enclosing rs = .ok (sel, rs') →
      ∀ others first now begun st m cs, sel.Passing shown others first now begun st m cs →
        ∃ k, sel.size now begun = .ok k ∧ {x | x ∈ cs}.ncard ≤ k) ∧
    (∀ (v : ChainedVariable S) (c : SubChainSettings) (runs : Selector Memory S SubChain),
      runSelector v c enclosing = .ok runs → RunsGrow v c enclosing shown →
      ∀ others first now begun st m cs, runs.Passing shown others first now begun st m cs →
        runs.size now begun = .error .overflow ∧ ¬RunsFit c.minimum c.maximum (v.graph now) ∨
          ∃ k, runs.size now begun = .ok k ∧ {x | x ∈ cs}.ncard ≤ k) ∧
    (∀ (v : ChainedVariable S) (c : SubChainSettings) (runs : Selector Memory S SubChain),
      runSelector v c enclosing = .ok runs → (c.runs.getD {}).cache = .phase →
      (c.runs.getD {}).orderIn enclosing ≠ .shuffled →
      (c.runs.getD {}).orderIn enclosing ≠ .random →
      ∀ first now patience, (v.graph first).validate = .ok () →
      shown (.phase first) ⟨first, patience⟩ → shown (.step first now) ⟨now, patience⟩ →
      ∃ begun st m cs, runs.Passing shown Eq first now begun st m cs ∧
        HingesOn (RunsFit c.minimum c.maximum (v.graph now))
          (runsIn c.minimum c.maximum (v.graph now)).length (runs.size now begun) ∧
        {x | x ∈ cs}.ncard = (runsIn c.minimum c.maximum (v.graph first)).length) ∧
    (∀ sel, Built r shown enclosing sel → sel.neverEnding = false →
      ∀ first now begun st m cs, sel.Passing shown Eq first now begun st m cs →
        sel.size now begun = .error .overflow ∨
          ∃ k, sel.size now begun = .ok k ∧ Count.saturated {x | x ∈ cs}.ncard ≤ k) ∧
    ∀ children, BuiltAll r shown .random children →
      ∀ first now (st : (Selector.union children true).State) set sizes,
      (Selector.union children true).Reached shown (.step first now) true st →
      shown (.step first now) set → States.sizes now children st.2 = .ok sizes →
      ∀ i w x sts w', States.nextAt set children i st.2 w = .ok ((some x, sts), w') →
        (∃ k, sizes[i]? = some k ∧ 0 < k) ∧ ∃ n < sizes.sum, childAt sizes n = i := by
  refine ⟨?_, ?_, ?_, ?_, ?_⟩
  · intro C _ _ items c rs rs' sel built others first now begun st m cs passing
    obtain ⟨ranges, told, -, bounded⟩ := ranges_leaf_unseen shown built
    obtain ⟨k, size⟩ := told.exists_size steady passing
    exact ⟨k, size, bounded.ncard_le steady passing size⟩
  · intro v c runs built grow others first now begun st m cs passing
    obtain ⟨ranges, bounded, -, told⟩ := ranges_runSelector grow built fun _ => ()
    have known := ranges.inv_of_reached steady passing.begun_reached
    cases size : runs.size now begun with
    | ok k => exact .inr ⟨k, rfl, bounded.ncard_le steady passing size⟩
    | error e =>
      obtain rfl := ranges.sized known e size
      refine .inl ⟨rfl, fun fit => ?_⟩
      obtain ⟨k, counted⟩ := told known fit
      cases size.symm.trans counted
  · intro v c runs built kept inOrder listed first now patience valid begins steps
    exact exists_passing_kept built kept inOrder listed valid begins steps
  · intro sel built ends first now begun st m cs passing
    by_cases random : enclosing = .random
    · subst random
      rw [built.neverEnding] at ends
      cases ends
    · obtain ⟨sized⟩ := built.measures.1 random
      exact sized.ncard_le steady ends passing
  · intro children built first now st set sizes reached shows sized i w x sts w' asked
    exact exists_childAt (fun child member => (built.measures child member).2 rfl steady) shows
      reached asked sized

/-! ## A necklace that is turned -/

/-- Runs of two beads that are kept for a phase. -/
def keptPairs : SubChainSettings where
  variableName := some "previous"
  minimumSize := some 2
  reversingToo := some false
  runs := some { cacheType := some .phase, order := some .listed }
  values := some { order := some .listed }

/-- All in order: single beads, and runs of two beads. -/
def lengthwise : List MoveSelectorSettings :=
  let inOrder : SelectorSettings := { order := some .listed }
  [.change { variableName := some "previous", entities := some inOrder, values := some inOrder },
    .subChainChange keptPairs]

/-- In a phase that begins with both beads on the first string, they can be turned. -/
def ShowsTurned (p : Point Necklace) (set : Setting Necklace) : Prop :=
  ∀ first now, p = .step first now → first = Necklace.plain ∧ set.solution = now ∧
    (now = Necklace.plain ∨ now = Necklace.turned)

theorem allSizesHold_lengthwise (enclosing : SelectionOrder) :
    AllSizesHold strung ShowsTurned enclosing lengthwise := by
  refine ⟨.inr fun limits => ?_, fun v handles targets found _ _ first set shows => ?_, trivial⟩
  · cases limits.1.2.1
  · obtain ⟨rfl, -, rfl⟩ := RegisteredVariable.chained.inj (Except.ok.inj found)
    obtain ⟨rfl, -, same | same⟩ := shows _ _ rfl
    · rw [same]
    · rw [same]
      decide

theorem steady_showsTurned : Steady ShowsTurned := fun _ _ _ shows => (shows _ _ rfl).2.1

theorem shows_turned : ShowsTurned (.step Necklace.plain Necklace.turned) ⟨Necklace.turned, 9⟩ := by
  rintro first now ⟨⟩
  exact ⟨rfl, rfl, .inr rfl⟩

/-- The beginning of a pass, once a phase and a step are announced. -/
theorem passing_turned (sel : Selector Memory Necklace (Move Necklace)) (st st' begun : sel.State)
    (w w₁ w₂ w₃ : World Memory)
    (phase : sel.handle .phaseStarted ⟨Necklace.plain, 9⟩ sel.start w = .ok (st, w₁))
    (step : sel.handle .stepStarted ⟨Necklace.turned, 9⟩ st w₁ = .ok (st', w₂))
    (ran : sel.restart ⟨Necklace.turned, 9⟩ st' w₂ = .ok (begun, w₃)) :
    sel.Passing ShowsTurned Eq Necklace.plain Necklace.turned begun begun w₃.memory [] :=
  .start (.announced (.announced .start rfl (by rintro first now ⟨⟩) phase) rfl shows_turned step)
    shows_turned ran

/-- Such a pass with its first move. -/
theorem passing_first (sel : Selector Memory Necklace (Move Necklace)) (x : Move Necklace)
    (begun after : sel.State) (w w' : World Memory)
    (started : sel.Passing ShowsTurned Eq Necklace.plain Necklace.turned begun begun w.memory [])
    (ran : sel.next ⟨Necklace.turned, 9⟩ begun w = .ok ((some x, after), w')) :
    sel.Passing ShowsTurned Eq Necklace.plain Necklace.turned begun after w'.memory [x] :=
  .drawn started rfl shows_turned ran

/-- In a step with the turned necklace, all is gone through in order. -/
theorem exists_passing_lengthwise :
    ∃ sel rs', movesOf strung .listed (.union lengthwise) {} = .ok (sel, rs') ∧
      ∃ begun st m x, sel.neverEnding = false ∧
        sel.Passing ShowsTurned Eq Necklace.plain Necklace.turned begun st m [x] ∧
        sel.size Necklace.turned begun = .ok 12 :=
  ⟨_, _, rfl, _, _, _, _, rfl, passing_first _ _ _ _ _ _
    (passing_turned _ _ _ _ ⟨.ofSeed 0, {}⟩ _ _ _ rfl rfl rfl) rfl, rfl⟩

/-- In a step with the turned necklace, the moves of the kept run are asked for. -/
theorem exists_asked_lengthwise :
    ∃ children rs', movesOfAll strung .random lengthwise {} = .ok (children, rs') ∧
      ∃ st : (Selector.union children true).State, ∃ x sts w w',
        (Selector.union children true).Reached ShowsTurned (.step Necklace.plain Necklace.turned)
          true st ∧
        States.nextAt ⟨Necklace.turned, 9⟩ children 1 st.2 w = .ok ((some x, sts), w') ∧
        States.sizes Necklace.turned children st.2 = .ok [8, 4] :=
  ⟨_, _, rfl, _, _, _, ⟨.ofSeed 0, {}⟩, _,
    (passing_turned _ _ _ _ ⟨.ofSeed 0, {}⟩ _ _ _ rfl rfl rfl).begun_reached, rfl, rfl⟩

theorem passes_within_sizes_strung :
    (∃ sel rs', movesOf strung .listed (.union lengthwise) {} = .ok (sel, rs') ∧
      ∃ begun st m x, sel.Passing ShowsTurned Eq Necklace.plain Necklace.turned begun st m [x] ∧
        sel.size Necklace.turned begun = .ok 12 ∧ Count.saturated {y | y ∈ [x]}.ncard ≤ 12) ∧
    (∃ runs begun st m cs, runSelector Necklace.previous keptPairs .listed = .ok runs ∧
      runs.Passing (fun p set => ∀ first now, p = .step first now → set.solution = now) Eq
        Necklace.plain Necklace.parted begun st m cs ∧
      runs.size Necklace.parted begun = .ok 0 ∧ {x | x ∈ cs}.ncard = 1) ∧
    ∃ children rs', movesOfAll strung .random lengthwise {} = .ok (children, rs') ∧
      ∃ st : (Selector.union children true).State, ∃ x sts w w',
        (Selector.union children true).Reached ShowsTurned (.step Necklace.plain Necklace.turned)
          true st ∧
        States.nextAt ⟨Necklace.turned, 9⟩ children 1 st.2 w = .ok ((some x, sts), w') ∧
        States.sizes Necklace.turned children st.2 = .ok [8, 4] ∧
        ∃ n < 12, childAt [8, 4] n = 1 := by
  refine ⟨?_, ?_, ?_⟩
  · obtain ⟨sel, rs', built, begun, st, m, x, ends, passing, size⟩ := exists_passing_lengthwise
    obtain ⟨-, -, -, inOrder, -⟩ :=
      passes_within_sizes strung .listed ShowsTurned steady_showsTurned
    refine ⟨sel, rs', built, begun, st, m, x, passing, size, ?_⟩
    obtain overflow | ⟨k, same, bound⟩ := inOrder sel
      (.settings (c := .union lengthwise) (allSizesHold_lengthwise _) built) ends _ _ _ _ _ _ passing
    · cases overflow.symm.trans size
    · obtain rfl := Except.ok.inj (same.symm.trans size)
      exact bound
  · obtain ⟨-, -, kept, -⟩ := passes_within_sizes strung .listed
      (fun p set => ∀ first now, p = .step first now → set.solution = now)
      fun _ _ _ shows => shows _ _ rfl
    obtain ⟨runs, built⟩ : ∃ runs, runSelector Necklace.previous keptPairs .listed = .ok runs :=
      ⟨_, rfl⟩
    obtain ⟨begun, st, m, cs, passing, size, more⟩ :=
      kept _ keptPairs runs built rfl (by rintro ⟨⟩) (by rintro ⟨⟩)
        Necklace.plain Necklace.parted 9 (by decide) (by rintro first now ⟨⟩)
        (by rintro first now ⟨⟩; rfl)
    exact ⟨runs, begun, st, m, cs, built, passing,
      size.1 (.of_size (by decide) (by decide) (ChainGraph.validate_eq_ok_iff.1 (by decide))
        (by decide)), more⟩
  · obtain ⟨children, rs', built, st, x, sts, w, w', reached, asked, sizes⟩ :=
      exists_asked_lengthwise
    obtain ⟨-, -, -, -, atRandom⟩ :=
      passes_within_sizes strung .random ShowsTurned steady_showsTurned
    obtain ⟨-, drawn⟩ := atRandom children (.settings (allSizesHold_lengthwise _) built) _ _ st
      ⟨Necklace.turned, 9⟩ [8, 4] reached shows_turned sizes 1 w x sts w' asked
    exact ⟨children, rs', built, st, x, sts, w, w', reached, asked, sizes, drawn⟩

end Assembly

end PlanSearch
