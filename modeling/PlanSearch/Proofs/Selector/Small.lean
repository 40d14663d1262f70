import PlanSearch.Proofs.Lockstep.Confined
import PlanSearch.Proofs.Selector.Runs
import PlanSearch.Proofs.Selector.SettledMoves
import PlanSearch.Proofs.Selector.SettledRuns
import PlanSearch.Proofs.Selector.Sorted

/-!
# Selectors whose sizes are small

The size of a selector is a number of candidates that are in a solution, of candidates that are kept
in a list, or made of the sizes of other selectors. So it is bounded by what the solutions hold that
a search goes on about, and no call comes upon a number that is too large if the bounds are small.
-/

namespace PlanSearch

variable {M S C D E V α β : Type} {inside : S → Prop} {most : ℕ}

/-! ## Draws that come upon no number that is too large -/

/-- No number is too large for the draw, and what it yields is as described. -/
def Draw.Fits (f : Draw M α) (Q : α → Prop) : Prop :=
  ∀ w, Breaks (· ≠ .overflow) (f w) ∧ ∀ a w', f w = .ok (a, w') → Q a

namespace Draw.Fits

variable {f : Draw M α} {k : α → Draw M β} {Q Q' : α → Prop} {P : β → Prop}

theorem mono (fits : f.Fits Q) (post : ∀ a, Q a → Q' a) : f.Fits Q' := fun w =>
  ⟨(fits w).1, fun a w' ran => post a ((fits w).2 a w' ran)⟩

theorem and (fits : f.Fits Q) (fits' : f.Fits Q') : f.Fits fun a => Q a ∧ Q' a := fun w =>
  ⟨(fits w).1, fun a w' ran => ⟨(fits w).2 a w' ran, (fits' w).2 a w' ran⟩⟩

theorem of_breaks (breaks : f.BreaksWith (· ≠ .overflow)) : f.Fits fun _ => True := fun w =>
  ⟨breaks w, fun _ _ _ => trivial⟩

theorem pure {a : α} (post : Q a) : (Pure.pure a : Draw M α).Fits Q := by
  refine fun w => ⟨.ok (a, w), fun a' w' ran => ?_⟩
  cases ran
  exact post

theorem fail {e : Fault} (other : e ≠ .overflow) : (Draw.fail e : Draw M α).Fits Q := fun _ =>
  ⟨.error other, nofun⟩

theorem bind (first : f.Fits Q) (rest : ∀ a, Q a → (k a).Fits P) : (f >>= k).Fits P := by
  intro w
  obtain ⟨breaks, post⟩ := first w
  rw [draw_bind]
  cases ran : f w with
  | error e => exact ⟨.error (breaks e ran), nofun⟩
  | ok r => exact rest r.1 (post r.1 r.2 ran) r.2

theorem lift {x : Except Fault α} (breaks : Breaks (· ≠ .overflow) x) :
    (Draw.lift x : Draw M α).Fits fun a => x = .ok a := by
  refine fun w => ⟨breaks.map _, fun a w' ran => ?_⟩
  cases x with
  | error e => cases ran
  | ok a' =>
    cases ran
    rfl

theorem checked {n : ℕ} (small : n ≤ Count.max) :
    (Draw.lift (Count.checked n) : Draw M ℕ).Fits (· = n) := by
  rw [(HingesOn.checked n).1 small]
  exact (lift (.ok n)).mono fun _ same => (Except.ok.inj same).symm

theorem generate {f : Random.Generator → Except Fault (α × Random.Generator)}
    (breaks : ∀ g, Breaks (· ≠ .overflow) (f g)) :
    (Draw.generate f : Draw M α).Fits fun a => ∃ g g', f g = .ok (a, g') := by
  refine fun w => ⟨Draw.BreaksWith.generate breaks w, fun a w' ran => ?_⟩
  unfold Draw.generate at ran
  split at ran
  · cases ran
  · rename_i drawn
    cases ran
    exact ⟨_, _, drawn⟩

theorem below {bound : ℕ} (positive : bound ≠ 0) :
    (Draw.below bound : Draw M ℕ).Fits fun _ => True := of_breaks (.below positive)

theorem get (recorder : Recorder M C) : recorder.get.Fits fun _ => True := of_breaks fun _ => .ok _

theorem put (recorder : Recorder M C) (c : Option C) : (recorder.put c).Fits fun _ => True :=
  of_breaks fun _ => .ok _

end Draw.Fits

namespace Selector

variable {sel child : Selector M S C}

/-- The selector has at most so many candidates about the given solutions, and no number is too large
for its calls. -/
structure Small (sel : Selector M S C) (inside : S → Prop) (most : ℕ) where
  /-- What is known of the states of the selector. -/
  Inv : sel.State → Prop
  start : Inv sel.start
  size : ∀ {s st}, inside s → Inv st → ∃ k ≤ most, sel.size s st = .ok k
  handle : ∀ hook {set st}, inside set.solution → Inv st → (sel.handle hook set st).Fits Inv
  restart : ∀ {set st}, inside set.solution → Inv st → (sel.restart set st).Fits Inv
  next : ∀ {set st}, inside set.solution → Inv st → (sel.next set st).Fits fun r => Inv r.2

namespace Small

theorem inv_of_led (small : sel.Small inside most) {first m : M} {p : Pace} {st : sel.State}
    (led : sel.Led inside first p st m) : small.Inv st := by
  induction led with
  | start => exact small.start
  | loose _ inv => exact inv
  | handle hook set within _ handled inv => exact (small.handle hook within inv _).2 _ _ handled
  | restart set within _ restarted inv => exact (small.restart within inv _).2 _ _ restarted
  | next set within _ drawn inv => exact (small.next within inv _).2 _ _ drawn

/-- No number is too large in searches about the given solutions. -/
theorem fitsAmong (small : sel.Small inside most) (first : M) : sel.FitsAmong inside first where
  size led s within := by
    obtain ⟨k, -, known⟩ := small.size within (small.inv_of_led led)
    rw [known]
    exact .ok k
  handle led set within g := (small.handle _ within (small.inv_of_led led) _).1
  restart led set within g := (small.restart within (small.inv_of_led led) _).1
  next led set within g := (small.next within (small.inv_of_led led) _).1

variable (small : sel.Small inside most)

/-- There may be more candidates. -/
def mono {more : ℕ} (le : most ≤ more) : sel.Small inside more where
  Inv := small.Inv
  start := small.start
  size within inv :=
    let ⟨k, few, known⟩ := small.size within inv
    ⟨k, few.trans le, known⟩
  handle := small.handle
  restart := small.restart
  next := small.next

theorem nextOrRestart {set : Setting S} {st : sel.State} (within : inside set.solution)
    (inv : small.Inv st) : (sel.nextOrRestart set st).Fits fun r => small.Inv r.2 := by
  refine (small.next within inv).bind fun r inv => ?_
  obtain ⟨c, st⟩ := r
  cases c with
  | some c => exact .pure inv
  | none => exact (small.restart within inv).bind fun _ inv => small.next within inv

/-- A pass has at most as many candidates. -/
structure Passes where
  /-- How many candidates are left at most. -/
  left : sel.State → ℕ
  restart : ∀ {set st}, inside set.solution → small.Inv st →
    (sel.restart set st).Fits fun st => left st ≤ most
  next : ∀ {set st}, inside set.solution → small.Inv st →
    (sel.next set st).Fits fun r => r.1.isSome → left r.2 < left st

variable {small} (passes : small.Passes)
include passes

theorem Passes.drain {set : Setting S} (within : inside set.solution) (rounds : ℕ)
    {st : sel.State} (inv : small.Inv st) {found : Array C}
    (room : found.size + passes.left st ≤ most) :
    (sel.drain set rounds st found).Fits fun r => r.1.size ≤ most ∧ small.Inv r.2 := by
  induction rounds generalizing st found with
  | zero => exact .fail nofun
  | succ rounds ih =>
    refine ((small.next within inv).and (passes.next within inv)).bind
      fun ⟨c, st'⟩ ⟨inv, fewer⟩ => ?_
    replace inv : small.Inv st' := inv
    cases c with
    | none => exact .pure ⟨(Nat.le_add_right ..).trans room, inv⟩
    | some c =>
      have fewer : passes.left st' < passes.left st := fewer rfl
      exact ih inv (by rw [Array.size_push]; omega)

theorem Passes.pass {set : Setting S} {st : sel.State} (within : inside set.solution)
    (inv : small.Inv st) : (sel.pass set st).Fits fun r => r.1.size ≤ most ∧ small.Inv r.2 :=
  ((small.restart within inv).and (passes.restart within inv)).bind fun _ ⟨inv, room⟩ =>
    passes.drain within _ inv (by simpa using room)

end Small

/-! ## Candidates from the solution -/

section Source

variable (items : S → Array C) (few : ∀ s, inside s → (items s).size ≤ most)
include few

def smallSource (isRandom : Bool) : (source items isRandom : Selector M S C).Small inside most where
  Inv _ := True
  start := trivial
  size within _ := ⟨_, few _ within, rfl⟩
  handle _ _ _ _ _ := .pure trivial
  restart _ _ := .pure trivial
  next {set} {cursor : ℕ} _ _ := by
    rw [source_next]
    split
    · split
      · exact .pure trivial
      · rename_i filled
        exact (Draw.Fits.below (by simpa using filled)).bind fun _ _ => .pure trivial
    · split <;> exact .pure trivial

def passesSource :
    (smallSource items few false : (source items false : Selector M S C).Small inside most).Passes where
  left (cursor : ℕ) := most - cursor
  restart _ _ := .pure (Nat.sub_le ..)
  next {set} {cursor : ℕ} within _ := by
    rw [source_next]
    simp only [Bool.false_eq_true, if_false]
    split
    · exact .pure nofun
    · rename_i known
      obtain ⟨below, -⟩ := Array.getElem?_eq_some_iff.1 known
      have := few _ within
      exact .pure fun _ => by dsimp only; omega

end Source

/-! ## Kept lists -/

/-- Nothing is added to a kept list, and no number is too large for what is done with it. -/
structure Arrangement.Fits (how : Arrangement M S C D) : Prop where
  arrange : ∀ s candidates, Breaks (· ≠ .overflow) (how.arrange s candidates) ∧
    ∀ items, how.arrange s candidates = .ok items → items.size ≤ candidates.size
  shuffle : ∀ items, (how.shuffle items).Fits fun shuffled => shuffled.size ≤ items.size
  pick : ∀ items cursor, (how.pick items cursor).Fits fun c =>
    how.neverEnding = false → c.isSome → cursor < items.size

/-- Picks in the order of the list stay within it. -/
theorem Arrangement.Fits.of_inOrder {how : Arrangement M S C C}
    (arrange : ∀ s candidates, Breaks (· ≠ .overflow) (how.arrange s candidates) ∧
      ∀ items, how.arrange s candidates = .ok items → items.size ≤ candidates.size)
    (shuffle : ∀ items, (how.shuffle items).Fits fun shuffled => shuffled.size ≤ items.size)
    (picks : ∀ items cursor, how.pick items cursor = pure items[cursor]?) : how.Fits where
  arrange := arrange
  shuffle := shuffle
  pick items cursor := by
    rw [picks]
    exact .pure fun _ found => by simpa using found

theorem Arrangement.Fits.asTheyCome (cache : CacheType) (isRandom : Bool) :
    (Arrangement.asTheyCome cache isRandom : Arrangement M S C C).Fits := by
  have arrange (candidates : Array C) :
      Breaks (· ≠ .overflow) (.ok candidates : Except Fault (Array C)) ∧
        ∀ items, Except.ok candidates = (.ok items : Except Fault (Array C)) →
          items.size ≤ candidates.size :=
    ⟨.ok _, by rintro _ ⟨⟩; rfl⟩
  cases isRandom with
  | false => exact .of_inOrder (fun _ => arrange) (fun _ => .pure le_rfl) fun _ _ => rfl
  | true =>
    refine ⟨fun _ => arrange, fun _ => .pure le_rfl, fun items cursor => ?_⟩
    change Draw.Fits (if items.isEmpty then pure none else do
      return items[← Draw.below items.size]?) _
    split
    · exact .pure nofun
    · rename_i filled
      exact (Draw.Fits.below (by simpa using filled)).bind fun _ _ => .pure nofun

section Kept

variable {small : child.Small inside most} (passes : small.Passes) {how : Arrangement M S C D}
include passes

theorem Small.Passes.fill (fits : how.Fits) {set : Setting S} (within : inside set.solution)
    {st : Kept child D} (inv : small.Inv st.child) :
    (st.fill how set).Fits fun st => small.Inv st.child ∧ st.items.size ≤ most :=
  (passes.pass within inv).bind fun r ⟨few, inv⟩ =>
    have arranged := fits.arrange set.solution r.1
    (Draw.Fits.lift arranged.1).bind fun items made =>
      .pure ⟨inv, (arranged.2 items made).trans few⟩

def smallKeeping (cache : CacheType) (fits : how.Fits) :
    (child.keeping cache how).Small inside most where
  Inv (st : Kept child D) := small.Inv st.child ∧ st.items.size ≤ most
  start := ⟨small.start, Nat.zero_le _⟩
  size within inv := by
    simp only [keeping]
    split
    · exact ⟨_, inv.2, rfl⟩
    · exact small.size within inv.1
  handle hook {set} {st : Kept child D} within inv := by
    refine (small.handle hook within inv.1).bind fun inner here => ?_
    have filled : (Kept.fill how set { st with child := inner }).Fits _ :=
      passes.fill fits within here
    cases hook <;> cases cache <;>
      first
      | exact filled
      | exact .pure ⟨here, inv.2⟩
      | exact .pure ⟨here, Nat.zero_le _⟩
  restart {set} {st : Kept child D} _ inv :=
    (fits.shuffle st.items).bind fun _ fewer => .pure ⟨inv.1, fewer.trans inv.2⟩
  next {set} {st : Kept child D} _ inv := by
    refine (fits.pick st.items st.cursor).bind fun c _ => ?_
    cases c <;> exact .pure inv

def passesKeeping (cache : CacheType) (fits : how.Fits) (ends : how.neverEnding = false) :
    (smallKeeping passes cache fits).Passes where
  left (st : Kept child D) := st.items.size - st.cursor
  restart {set} {st : Kept child D} _ inv :=
    (fits.shuffle st.items).bind fun _ fewer =>
      .pure ((Nat.sub_le ..).trans (fewer.trans inv.2))
  next {set} {st : Kept child D} _ _ := by
    refine (fits.pick st.items st.cursor).bind fun c picked => ?_
    cases c with
    | none => exact .pure nofun
    | some c =>
      have inside := picked ends rfl
      exact .pure fun _ => by dsimp only; omega

end Kept

/-- About the given solutions the selector has at most so many candidates and, unless it is
never-ending, its passes have. -/
def Few (sel : Selector M S C) (inside : S → Prop) (most : ℕ) : Prop :=
  ∃ small : sel.Small inside most, sel.neverEnding = false → Nonempty small.Passes

theorem few_source (items : S → Array C) (few : ∀ s, inside s → (items s).size ≤ most)
    (isRandom : Bool) : (source items isRandom : Selector M S C).Few inside most := by
  cases isRandom with
  | false => exact ⟨smallSource items few false, fun _ => ⟨passesSource items few⟩⟩
  | true => exact ⟨smallSource items few true, nofun⟩

theorem Few.keeping (few : child.Few inside most) (ends : child.neverEnding = false)
    (cache : CacheType) {how : Arrangement M S C D} (fits : how.Fits) :
    (child.keeping cache how).Few inside most := by
  obtain ⟨small, passes⟩ := few
  obtain ⟨passes⟩ := passes ends
  exact ⟨smallKeeping passes cache fits, fun listed => ⟨passesKeeping passes cache fits listed⟩⟩

section Orders

variable {cache : CacheType} (few : child.Few inside most)
include few

theorem Few.caching {isRandom : Bool} (made : child.caching cache isRandom = .ok sel) :
    sel.Few inside most := by
  obtain ⟨_, checked, made⟩ := andThen_eq_ok.1 made
  obtain rfl := Except.ok.inj made
  exact few.keeping (ends_of_checkCacheable checked) cache (.asTheyCome cache isRandom)

theorem Few.shuffling (made : child.shuffling cache = .ok sel) : sel.Few inside most := by
  obtain ⟨_, checked, made⟩ := andThen_eq_ok.1 made
  obtain rfl := Except.ok.inj made
  refine few.keeping (ends_of_checkCacheable checked) cache
    (.of_inOrder (fun _ _ => ⟨.ok _, by rintro _ ⟨⟩; rfl⟩) (fun items => ?_) fun _ _ => rfl)
  refine (Draw.Fits.generate fun g => ?_).mono fun shuffled ⟨g, g', made⟩ => ?_
  · obtain ⟨r, shuffled⟩ := g.shuffle_eq items
    rw [shuffled]
    exact .ok r
  · exact (Random.Generator.perm_of_shuffle made).size_eq.le

theorem Few.sorting {key : S → C → Except Fault Float} {direction : SortDirection}
    (breaks : ∀ s c, Breaks (· ≠ .overflow) (key s c))
    (made : child.sorting cache key direction = .ok sel) : sel.Few inside most := by
  obtain ⟨_, checked, made⟩ := andThen_eq_ok.1 made
  obtain rfl := Except.ok.inj made
  refine few.keeping (ends_of_checkCacheable checked) cache
    (.of_inOrder (fun s candidates => ⟨?_, fun items arranged => ?_⟩) (fun _ => .pure le_rfl)
      fun _ _ => rfl)
  · exact (Breaks.mapM fun c _ => (breaks s c).bind fun _ _ => .ok _).bind fun _ _ => .ok _
  · obtain ⟨keyed, measured, arranged⟩ := bind_eq_ok.1 arranged
    cases arranged
    have sorted := (perm_sortByKey direction keyed).map Prod.snd
    rw [map_snd_keyed measured] at sorted
    rw [List.size_toArray]
    exact sorted.length_eq.le

/-- Below a sum of weights that is no number, or infinite, nothing can be drawn. -/
theorem Few.probability {weight : S → C → Except Fault Float}
    (breaks : ∀ s c, Breaks (· ≠ .overflow) (weight s c))
    (made : child.probability cache weight = .ok sel) : sel.Few inside most := by
  obtain ⟨_, checked, made⟩ := andThen_eq_ok.1 made
  obtain rfl := Except.ok.inj made
  obtain ⟨small, passes⟩ := few
  obtain ⟨passes⟩ := passes (ends_of_checkCacheable checked)
  let kept := smallKeeping passes cache (.asTheyCome cache false)
  refine ⟨⟨fun st : Weighing child Float => kept.Inv st.kept, kept.start, fun within inv => ?_,
    fun hook {set} (st : Weighing child Float) within inv => ?_, fun _ inv => .pure inv,
    fun {set} (st : Weighing child Float) _ inv => ?_⟩, fun ends => Bool.noConfusion ends⟩
  · exact kept.size within inv
  · refine (kept.handle hook within inv).bind fun here inv => ?_
    have weighed : (Draw.lift (totalsOf (weight set.solution) here.items) >>= fun totals =>
        pure { kept := here, totals } : Draw M (Weighing child Float)).Fits
          fun st => kept.Inv st.kept :=
      (Draw.Fits.lift ((Breaks.mapM fun c _ => breaks set.solution c).bind fun _ _ => .ok _)).bind
        fun _ _ => .pure inv
    cases hook <;> cases cache <;> first | exact weighed | exact .pure inv
  · simp only [weighted]
    split
    · exact .pure inv
    · refine (Draw.Fits.generate fun g => ?_).bind fun _ _ => .pure inv
      change Breaks (· ≠ .overflow) (g.belowFloat _)
      unfold Random.Generator.belowFloat
      split
      · exact .error (by decide)
      · exact .ok _

end Orders

/-! ## Fewer candidates -/

section Size

variable (small : sel.Small inside most) {s : S} {st : sel.State}

theorem Small.fits_size (within : inside s) (inv : small.Inv st) :
    (Draw.lift (sel.size s st) : Draw M ℕ).Fits (· ≤ most) := by
  obtain ⟨k, few, known⟩ := small.size within inv
  rw [known]
  exact (Draw.Fits.lift (.ok k)).mono fun _ same => Except.ok.inj same ▸ few

end Size

section Filtering

variable {small : child.Small inside most} (accepts : S → C → Bool) {set : Setting S}
variable (within : inside set.solution) (limit : Option ℕ)
include within

theorem Small.nextAccepted (rounds refused : ℕ) {st : child.State} (inv : small.Inv st) :
    (child.nextAccepted accepts set limit rounds refused st).Fits fun r => small.Inv r.2 := by
  induction rounds generalizing refused st with
  | zero => exact .fail nofun
  | succ rounds ih =>
    refine (small.next within inv).bind fun ⟨c, st'⟩ inv => ?_
    cases c with
    | none => exact .pure inv
    | some c =>
      dsimp only
      split
      · exact .pure inv
      · split
        · exact .pure inv
        · exact ih _ inv

/-- A candidate that is accepted leaves fewer, like those that are refused. -/
theorem Small.Passes.nextAccepted (passes : small.Passes) (rounds refused : ℕ) {st : child.State}
    (inv : small.Inv st) : (child.nextAccepted accepts set limit rounds refused st).Fits
      fun r => r.1.isSome → passes.left r.2 < passes.left st := by
  induction rounds generalizing refused st with
  | zero => exact .fail nofun
  | succ rounds ih =>
    refine ((small.next within inv).and (passes.next within inv)).bind
      fun ⟨c, st'⟩ ⟨inv, fewer⟩ => ?_
    cases c with
    | none => exact .pure nofun
    | some c =>
      dsimp only
      split
      · exact .pure fewer
      · split
        · exact .pure nofun
        · exact (ih _ inv).mono fun _ less found => (less found).trans (fewer rfl)

end Filtering

theorem Few.filtering (few : child.Few inside most) (room : most * 10 ≤ Count.max)
    (accepts : S → C → Bool) : (child.filtering accepts).Few inside most := by
  obtain ⟨small, passes⟩ := few
  have next {set : Setting S} {st : child.State} (within : inside set.solution)
      (inv : small.Inv st) :
      ((child.filtering accepts).next set st).Fits fun r => small.Inv r.2 := by
    simp only [Selector.filtering]
    split
    · refine (small.fits_size within inv).bind fun size few => ?_
      exact (Draw.Fits.checked (by omega)).bind fun _ _ => small.nextAccepted accepts within _ _ _ inv
    · exact small.nextAccepted accepts within _ _ _ inv
  refine ⟨⟨small.Inv, small.start, small.size, small.handle, small.restart, next⟩, fun ends => ?_⟩
  obtain ⟨passes⟩ := passes ends
  refine ⟨⟨passes.left, passes.restart, fun within inv => ?_⟩⟩
  change child.neverEnding = false at ends
  simp only [Selector.filtering, ends]
  exact passes.nextAccepted accepts within _ _ _ inv

theorem Small.limited (small : child.Small inside most) (limit : ℕ) :
    Nonempty ((child.limited limit).Small inside most) := by
  refine ⟨⟨fun st : child.State × ℕ => small.Inv st.1, small.start, fun within inv => ?_,
    fun hook _ _ within inv => (small.handle hook within inv).bind fun _ inv => .pure inv,
    fun within inv => (small.restart within inv).bind fun _ inv => .pure inv,
    fun {set} (st : child.State × ℕ) within inv => ?_⟩⟩
  · obtain ⟨k, few, known⟩ := small.size within inv
    simp only [Selector.limited, known]
    exact ⟨_, (Nat.min_le_left ..).trans few, rfl⟩
  · simp only [Selector.limited]
    split
    · exact .pure inv
    · exact (small.next within inv).bind fun _ inv => .pure inv

/-! ## Shared candidates -/

theorem Small.recording (small : child.Small inside most) (recorder : Recorder M C) :
    Nonempty ((child.recording recorder).Small inside most) := by
  refine ⟨⟨small.Inv, small.start, small.size, fun hook {set} (st : child.State) within inv => ?_,
    fun within inv => (Draw.Fits.put recorder none).bind fun _ _ => small.restart within inv,
    fun {set} (st : child.State) within inv => ?_⟩⟩
  · refine (small.handle hook within inv).bind fun st inv => ?_
    split
    · exact (Draw.Fits.put recorder none).bind fun _ _ => .pure inv
    · exact .pure inv
  · refine (small.next within inv).bind fun ⟨c, st⟩ inv => ?_
    cases c with
    | none => exact .pure inv
    | some c => exact (Draw.Fits.put recorder _).bind fun _ _ => .pure inv

theorem small_replaying (recorder : Recorder M C) (some_ : 1 ≤ most) :
    Nonempty ((replaying recorder : Selector M S C).Small inside most) := by
  refine ⟨⟨fun _ => True, trivial, fun _ _ => ⟨1, some_, rfl⟩, fun _ _ _ _ _ => .pure trivial,
    fun _ _ => .pure trivial, fun {set} (replayed : Bool) _ _ => ?_⟩⟩
  simp only [replaying]
  split
  · exact .pure trivial
  · exact (Draw.Fits.get recorder).bind fun _ _ => .pure trivial

end Selector

/-! ## Destinations by distance -/

namespace Nearby.Matrix

variable [DecidableEq C]

/-- At most so many destinations are kept, also in each row. -/
def Short (m : Matrix C) (most : ℕ) : Prop :=
  m.destinations.size ≤ most ∧ ∀ row ∈ m.rows, row.2.size ≤ most

variable {m m' : Matrix C}

omit [DecidableEq C] in
theorem Short.rowLength_le (short : m.Short most) : m.rowLength ≤ most := by
  refine le_trans ?_ short.1
  unfold rowLength
  split
  · exact Nat.min_le_right ..
  · exact le_rfl

theorem Short.ranks_le (short : m.Short most) (origin : C) : m.ranks origin ≤ most := by
  unfold ranks
  cases known : m.row? origin with
  | none => exact short.rowLength_le
  | some row => exact short.2 (origin, row) (Ranks.mem_of_row? known)

theorem Short.destination (short : m.Short most) {meter : Meter C} {origin : C} {rank : ℕ}
    {c : Option C} (found : m.destination meter origin rank = .ok (c, m')) : m'.Short most := by
  obtain ⟨m₁, ensured, same⟩ := bind_eq_ok.1 found
  cases same
  unfold ensureRow at ensured
  split at ensured
  · cases ensured
    exact short
  · obtain ⟨ranked, -, same⟩ := bind_eq_ok.1 ensured
    cases same
    refine ⟨short.1, List.forall_mem_cons.2 ⟨?_, fun row kept =>
      short.2 row (List.mem_of_mem_filter kept)⟩⟩
    rw [List.size_toArray]
    exact (List.length_take_le ..).trans short.rowLength_le

end Nearby.Matrix

namespace Selector

section Nearby

variable {sel child : Selector M S C} [DecidableEq C] {recorder : Recorder M C}
variable {meter : S → Nearby.Meter C} {distribution : Option Nearby.Distribution} {small : child.Small inside most}

/-- The candidates are few, and so are the destinations that are kept. -/
def NearbyState.Short (small : child.Small inside most) (st : NearbyState child) : Prop :=
  small.Inv st.child ∧ ∀ m ∈ st.matrix, m.Short most

omit [DecidableEq C] in
theorem NearbyState.Short.collect (passes : small.Passes) {set : Setting S}
    (within : inside set.solution) {st : NearbyState child} (inv : small.Inv st.child) :
    (st.collect none set).Fits (NearbyState.Short small) :=
  (passes.pass within inv).bind fun _ ⟨few, inv⟩ => .pure ⟨inv, by
    rintro _ ⟨⟩
    exact ⟨few, nofun⟩⟩

theorem NearbyState.Short.destination (breaks : ∀ s a b, Breaks (· ≠ .overflow) (meter s a b))
    {st : NearbyState child} (short : st.Short small) (s : S) (origin : C) (rank : ℕ) :
    (st.destination meter s origin rank : Draw M _).Fits fun r => NearbyState.Short small r.2 := by
  unfold NearbyState.destination
  split
  · exact .pure short
  · rename_i m known
    refine (Draw.Fits.lift (m.breaks_destination (breaks s) origin rank)).bind fun r found => ?_
    refine .pure ⟨short.1, ?_⟩
    rintro _ ⟨⟩
    exact (short.2 m known).destination found

theorem NearbyState.Short.next (breaks : ∀ s a b, Breaks (· ≠ .overflow) (meter s a b))
    {st : NearbyState child} (short : st.Short small) (s : S) :
    (st.next recorder meter distribution s).Fits fun r => NearbyState.Short small r.2 := by
  cases distribution with
  | none =>
    unfold NearbyState.next
    cases st.origin with
    | none => exact .pure short
    | some origin =>
      refine (short.destination breaks s origin st.rank).bind fun ⟨c, st'⟩ short => ?_
      cases c <;> exact .pure short
  | some distribution =>
    refine (Draw.Fits.get recorder).bind fun origin _ => ?_
    split
    · split
      · exact .pure short
      · refine (Draw.Fits.generate fun g => ?_).bind fun rank _ =>
          short.destination breaks s _ rank
        obtain ⟨r, drawn⟩ := distribution.draw_eq _ g
        rw [drawn]
        exact .ok r
    · exact .pure short

theorem Few.nearby (few : child.Few inside most)
    (breaks : ∀ s a b, Breaks (· ≠ .overflow) (meter s a b))
    (made : child.nearby recorder meter distribution none = .ok sel) : sel.Few inside most := by
  unfold Selector.nearby at made
  split at made
  · cases made
  rename_i ends
  obtain rfl := Except.ok.inj made
  obtain ⟨small, passes⟩ := few
  obtain ⟨passes⟩ := passes (Bool.eq_false_iff.2 ends)
  have restarts {set : Setting S} {st : NearbyState child} (within : inside set.solution)
      (short : st.Short small) : ((child.byDistance recorder meter distribution none).restart set
        st).Fits fun st => st.Short small ∧ st.left ≤ most := by
    have begun {st : NearbyState child} (short : st.Short small) : (recorder.get >>= fun origin =>
        pure { st with rank := 0, origin } : Draw M (NearbyState child)).Fits
          fun st => st.Short small ∧ st.left ≤ most := by
      refine (Draw.Fits.get recorder).bind fun origin _ => .pure ⟨short, ?_⟩
      unfold NearbyState.left
      split
      · rename_i m _ known _
        exact (short.2 m known).ranks_le _
      · exact Nat.zero_le _
    simp only [byDistance]
    split
    · exact (NearbyState.Short.collect passes within short.1).bind fun _ => begun
    · exact (Draw.Fits.pure short).bind fun _ => begun
  refine ⟨⟨NearbyState.Short small, ⟨small.start, nofun⟩,
    fun {s} (st : NearbyState child) within short => ?_,
    fun hook {set} (st : NearbyState child) within short => ?_,
    fun within short => (restarts within short).mono fun _ => And.left,
    fun {set} (st : NearbyState child) within short => short.next breaks set.solution⟩,
    fun listed => ⟨⟨NearbyState.left,
      fun within short => (restarts within short).mono fun _ => And.right,
      fun {set} (st : NearbyState child) _ short => ?_⟩⟩⟩
  · simp only [byDistance]
    split
    · rename_i m known
      exact ⟨_, (short.2 m known).rowLength_le, rfl⟩
    · obtain ⟨k, few, known⟩ := small.size within short.1
      rw [known]
      exact ⟨k, few, rfl⟩
  · refine (small.handle hook within short.1).bind fun inner inv => ?_
    cases hook with
    | phaseStarted => exact NearbyState.Short.collect passes within inv
    | phaseEnded => exact .pure ⟨inv, nofun⟩
    | _ => exact .pure ⟨inv, short.2⟩
  · change distribution.isSome = false at listed
    obtain rfl := Option.isNone_iff_eq_none.1 (Option.isSome_eq_false_iff.1 listed)
    have next : (st.next recorder meter none set.solution).Fits fun r => r.2.Short small :=
      NearbyState.Short.next breaks short set.solution
    refine fun w => ⟨(next w).1, fun ⟨c, st'⟩ w' drawn found => ?_⟩
    obtain ⟨c, rfl⟩ := Option.isSome_iff_exists.1 found
    exact NearbyState.left_lt recorder ⟨0, w, w', drawn⟩

end Nearby

end Selector

end PlanSearch
