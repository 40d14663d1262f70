import PlanSearch.Proofs.Selector.Memory
import PlanSearch.Proofs.Selector.Passes
import PlanSearch.Proofs.Selector.Traced
import PlanSearch.Selector.Union

/-!
# Passes that can be repeated

The passes of a selector can be repeated if every pass that is begun in one situation has the same
candidates, wherever the pass before it was broken off. What the situation is, is a matter of the
memory: it tells which candidate another selector has recorded, and candidates that are replayed or
ranked by their distance depend on that. Selectors of moves in their own order are made of such
selectors and are such selectors themselves. Their passes are the products of the passes of their
parts.
-/

namespace PlanSearch

namespace Selector

variable {M S C E V I : Type}

/-! ## Parts -/

/-- The draws that are left in the pass yield the given candidates one after the other, and then
none, whatever else is drawn from the generator. Between two draws, the last one of which has
yielded a candidate, others turn the memory into another one as described. The states are known
throughout, and what is held of the memory stays true. -/
def Offers (sel : Selector M S C) (set : Setting S) (known : sel.State → Prop) (held : M → Prop)
    (others : C → M → M → Prop) : List C → sel.State → M → Prop
  | [], st, m => ∀ g, ∃ st' w', sel.next set st ⟨g, m⟩ = .ok ((none, st'), w') ∧
      known st' ∧ held w'.memory
  | c :: rest, st, m => ∀ g, ∃ st' w', sel.next set st ⟨g, m⟩ = .ok ((some c, st'), w') ∧
      known st' ∧ held w'.memory ∧ others c w'.memory w'.memory ∧
      ∀ m', others c w'.memory m' → sel.Offers set known held others rest st' m'

/-- In every known state a pass can be begun, and it has the candidates that belong to the
situation. The states in which it can be broken off are known ones, too. -/
def Repeats (sel : Selector M S C) (set : Setting S) (held : I → M → Prop)
    (others : I → C → M → M → Prop) (list : I → List C) (known : sel.State → Prop) : Prop :=
  ∀ i st w, known st → held i w.memory → ∃ st' w', sel.restart set st w = .ok (st', w') ∧
    known st' ∧ held i w'.memory ∧
    ∀ m, held i m → sel.Offers set known (held i) (others i) (list i) st' m

/-- Nobody else changes the memory. -/
def Alone (_ : C) (m m' : M) : Prop := m' = m

/-- The candidate is the recorded one, if candidates are recorded at all. -/
def Records (recorder : Option (Recorder M C)) (c : C) (m : M) : Prop :=
  ∀ r ∈ recorder, r.recorded m = some c

/-- The situations in which a candidate is the recorded one. -/
def WhileRecorded (recorder : Option (Recorder M C)) (held : I → M → Prop) (x : I × C) (m : M) :
    Prop :=
  held x.1 m ∧ Records recorder x.2 m

theorem whileRecorded_none {held : I → M → Prop} :
    WhileRecorded (none : Option (Recorder M C)) held = fun x => held x.1 := by
  funext x m
  simp [WhileRecorded, Records]

/-- Others leave the situation and the recorded candidate as they are. -/
def Shared (recorder : Option (Recorder M C)) (held : I → M → Prop) (i : I) (c : C) (_ m' : M) :
    Prop :=
  WhileRecorded recorder held (i, c) m'

section Parts

variable {sel : Selector M S C} {set : Setting S} {known : sel.State → Prop} {held : M → Prop}
variable {others others' : C → M → M → Prop}

/-- If less is done in between, the candidates stay the same. -/
theorem Offers.mono {L : List C} {st : sel.State} {m : M}
    (offers : sel.Offers set known held others L st m)
    (stays : ∀ c m, others c m m → others' c m m)
    (less : ∀ c m m', others c m m → others' c m m' → others c m m') :
    sel.Offers set known held others' L st m := by
  induction L generalizing st m with
  | nil => exact offers
  | cons c rest ih =>
    intro g
    obtain ⟨st', w', drawn, kept, holds, left, offers⟩ := offers g
    exact ⟨st', w', drawn, kept, holds, stays _ _ left, fun m' done =>
      ih (offers m' (less _ _ _ left done))⟩

/-- The candidates are drawn as far as asked for. -/
theorem Offers.take {L : List C} {st : sel.State} {m : M}
    (offers : sel.Offers set known held Alone L st m) (kept : known st) (holds : held m) (n : Nat)
    (g : Random.Generator) :
    ∃ st' w', sel.take set n st ⟨g, m⟩ = .ok ((L.take n, st'), w') ∧ known st' ∧
      held w'.memory := by
  induction n generalizing L st m g with
  | zero => exact ⟨st, ⟨g, m⟩, rfl, kept, holds⟩
  | succ n ih =>
    cases L with
    | nil =>
      obtain ⟨st', w', drawn, kept, holds⟩ := offers g
      refine ⟨st', w', ?_, kept, holds⟩
      rw [Selector.take, draw_bind_eq drawn]
      rfl
    | cons c rest =>
      obtain ⟨st', w', drawn, kept, holds, -, offers⟩ := offers g
      obtain ⟨last, w'', taken, kept, holds⟩ := ih (offers _ rfl) kept holds w'.generator
      refine ⟨last, w'', ?_, kept, holds⟩
      rw [Selector.take, draw_bind_eq drawn]
      dsimp only
      rw [draw_bind_eq taken]
      rfl

/-- A selector that others do not disturb is one that is left alone. -/
theorem Repeats.alone {recorder : Option (Recorder M C)} {held : I → M → Prop} {list : I → List C}
    (repeats : sel.Repeats set held (Shared recorder held) list known) :
    sel.Repeats set held (fun _ => Alone) list known := by
  intro i st w kept holds
  obtain ⟨st', w', restarted, kept, holds, offers⟩ := repeats i st w kept holds
  refine ⟨st', w', restarted, kept, holds, fun m holds => (offers m holds).mono ?_ ?_⟩
  · exact fun _ _ _ => rfl
  · rintro c m _ left rfl
    exact left

end Parts

/-! ## Selectors of candidates -/

theorem Supplies.offers {sel : Selector M S C} {set : Setting S} {known : sel.State → Prop}
    {held : I → M → Prop} {i : I} (kept : ∀ st c st' (w w' : World M), known st →
      sel.next set st w = .ok ((c, st'), w') → known st') {L : List C} {st : sel.State} {m : M}
    (supplies : sel.Supplies set L st) (now : known st) (holds : held i m) :
    sel.Offers set known (held i) (Shared none held i) L st m := by
  induction L generalizing st m with
  | nil =>
    obtain ⟨st', drawn⟩ := supplies
    exact fun g => ⟨st', ⟨g, m⟩, drawn _, kept _ _ _ _ _ now (drawn ⟨g, m⟩), holds⟩
  | cons c rest ih =>
    obtain ⟨st', drawn, supplies⟩ := supplies
    intro g
    have now := kept _ _ _ _ _ now (drawn ⟨g, m⟩)
    exact ⟨st', ⟨g, m⟩, drawn _, now, holds, ⟨holds, nofun⟩, fun m' left => ih supplies now left.1⟩

section Candidates

variable {sel : Selector M S C} {shown : Point S → Setting S → Prop} {set : Setting S}
variable {recorder : Option (Recorder M C)} {first now : S}

theorem Presents.offers {held : I → M → Prop} {i : I} (shows : shown (.step first now) set)
    (keeps : ∀ c m m', held i m → Remembers recorder c m m' → held i m') {L : List C}
    {st : sel.State} {m : M} (reached : sel.Reached shown (.step first now) true st)
    (presents : sel.Presents recorder set L st) (holds : held i m) :
    sel.Offers set (fun st => ∃ inPass, sel.Reached shown (.step first now) inPass st) (held i)
      (Shared recorder held i) L st m := by
  induction L generalizing st m with
  | nil =>
    obtain ⟨st', drawn⟩ := presents
    exact fun g => ⟨st', ⟨g, m⟩, drawn _, ⟨true, .drawn reached shows (drawn ⟨g, m⟩)⟩, holds⟩
  | cons c rest ih =>
    obtain ⟨st', drawn, presents⟩ := presents
    intro g
    obtain ⟨w', ran, remembers⟩ := drawn ⟨g, m⟩
    have next := Reached.drawn reached shows ran
    have holds := keeps _ _ _ holds remembers
    refine ⟨st', w', ran, ⟨true, next⟩, holds, ⟨holds, ?_⟩, fun m' left => ih next presents left.1⟩
    rintro r ⟨⟩
    exact remembers.2

/-- The passes that a search begins can be repeated if their list is determined by the situation,
and what the selector records does not make another situation of it. -/
theorem Passes.repeats {list : Point S → S → M → List C → Prop}
    (passes : sel.Passes recorder shown list) (shows : shown (.step first now) set)
    {held : I → M → Prop} {every : I → List C}
    (keeps : ∀ i c m m', held i m → Remembers recorder c m m' → held i m')
    (same : ∀ i m L, held i m → list (.step first now) set.solution m L → L = every i) :
    sel.Repeats set held (Shared recorder held) every
      fun st => ∃ inPass, sel.Reached shown (.step first now) inPass st := by
  rintro i st w ⟨inPass, reached⟩ holds
  obtain ⟨st', w', L, restarted, remembers, listed, presents⟩ := passes.pass reached shows w
  obtain rfl := same i _ L holds listed
  have begun := Reached.restarted reached shows restarted
  exact ⟨st', w', restarted, ⟨true, begun⟩, keeps _ _ _ _ holds remembers,
    fun m holds => presents.offers shows (keeps i) begun holds⟩

/-- A selector that takes part in a search: it accepts what is announced to it, and its passes in a
step can be repeated. -/
structure Repeatable {C : Type} (sel : Selector M S C) (shown : Point S → Setting S → Prop)
    (held : I → M → Prop) (list : Point S → S → I → List C) : Prop where
  accepts : ∀ {p p' inPass hook set st}, sel.Reached shown p inPass st →
    p.after hook set.solution = some p' → shown p' set →
    ∀ w, ∃ st' w', sel.handle hook set st w = .ok (st', w')
  repeats : ∀ {first now set}, shown (.step first now) set →
    sel.Repeats set held (fun _ => Alone) (list (.step first now) set.solution)
      fun st => ∃ inPass, sel.Reached shown (.step first now) inPass st

/-- A search that shows less leads to fewer states. -/
theorem Reached.mono {sel : Selector M S C} {shown shown' : Point S → Setting S → Prop}
    (less : ∀ p set, shown' p set → shown p set) {p : Point S} {inPass : Bool} {st : sel.State}
    (reached : sel.Reached shown' p inPass st) : sel.Reached shown p inPass st := by
  induction reached with
  | start => exact .start
  | announced _ due shows ran ih => exact .announced ih due (less _ _ shows) ran
  | restarted _ shows ran ih => exact .restarted ih (less _ _ shows) ran
  | drawn _ shows ran ih => exact .drawn ih (less _ _ shows) ran

theorem Passes.of_shown {list : Point S → S → M → List C → Prop}
    {shown' : Point S → Setting S → Prop} (passes : sel.Passes recorder shown list)
    (less : ∀ p set, shown' p set → shown p set) : sel.Passes recorder shown' list where
  accepts reached due shows := passes.accepts (reached.mono less) due (less _ _ shows)
  pass reached shows := passes.pass (reached.mono less) (less _ _ shows)

/-- A selector takes part in a search, and its passes can be repeated, if the list of a pass is
determined by the situation. -/
theorem Passes.repeatable {list : Point S → S → M → List C → Prop}
    (passes : sel.Passes recorder shown list) {held : I → M → Prop}
    {every : Point S → S → I → List C}
    (keeps : ∀ i c m m', held i m → Remembers recorder c m m' → held i m')
    (same : ∀ first now set i m L, shown (.step first now) set → held i m →
      list (.step first now) set.solution m L → L = every (.step first now) set.solution i) :
    sel.Repeatable shown held every where
  accepts := passes.accepts
  repeats shows := (passes.repeats shows keeps fun i m L holds =>
    same _ _ _ i m L shows holds).alone

/-- The candidate that is replayed is the recorded one. -/
theorem repeats_replaying (recorder : Recorder M C) (held : I → M → Prop) :
    (replaying recorder : Selector M S C).Repeats set (WhileRecorded (some recorder) held)
      (fun _ => Alone) (fun x => [x.2]) fun _ => True := by
  rintro x st w - holds
  refine ⟨false, w, rfl, trivial, holds, fun m holds g => ⟨true, ⟨g, m⟩, ?_, trivial, holds, rfl, ?_⟩⟩
  · have recorded : recorder.recorded m = some x.2 := holds.2 recorder rfl
    change Except.ok ((recorder.recorded m, (recorder.recorded m).isSome), (⟨g, m⟩ : World M)) = _
    rw [recorded]
    rfl
  · rintro m' rfl g
    exact ⟨true, ⟨g, m'⟩, rfl, trivial, holds⟩

end Candidates

/-! ## Pairs -/

section Pairs

variable {entities : Selector M S E} {values : Selector M S V} {set : Setting S}

namespace Pairing

section Rounds

variable {es es' : entities.State} {vs vs' : values.State} {w w' w'' : World M} {rounds : Nat} {e : E}

theorem nextPair_ended (drawn : entities.next set es w = .ok ((none, es'), w')) :
    nextPair set (rounds + 1) (⟨es, vs, none⟩ : Pairing entities values) w =
      .ok ((none, ⟨es', vs, none⟩), w') := by
  rw [nextPair_succ, advance]
  dsimp only
  rw [bind_assoc, draw_bind_eq drawn]
  rfl

/-- The values are begun with for the next entity. -/
theorem nextPair_begun (drawn : entities.next set es w = .ok ((some e, es'), w'))
    (begun : values.restart set vs w' = .ok (vs', w'')) :
    nextPair set (rounds + 1) (⟨es, vs, none⟩ : Pairing entities values) w =
      nextPair set (rounds + 1) ⟨es', vs', some e⟩ w'' := by
  rw [nextPair_succ, nextPair_succ, advance, advance]
  dsimp only
  rw [bind_assoc, draw_bind_eq drawn]
  dsimp only
  rw [bind_assoc, draw_bind_eq begun]

theorem nextPair_found {v : V} (drawn : values.next set vs w = .ok ((some v, vs'), w')) :
    nextPair set (rounds + 1) (⟨es, vs, some e⟩ : Pairing entities values) w =
      .ok ((some (e, v), ⟨es, vs', some e⟩), w') := by
  rw [nextPair_succ, advance]
  dsimp only
  rw [pure_bind]
  dsimp only
  rw [draw_bind_eq drawn]
  rfl

/-- An entity without another value is done with. -/
theorem nextPair_passed (drawn : values.next set vs w = .ok ((none, vs'), w')) :
    nextPair set (rounds + 1) (⟨es, vs, some e⟩ : Pairing entities values) w =
      nextPair set rounds ⟨es, vs', none⟩ w' := by
  rw [nextPair_succ, advance]
  dsimp only
  rw [pure_bind]
  dsimp only
  rw [draw_bind_eq drawn]

end Rounds

end Pairing

/-- Every entity with each of its values. -/
def products (list : E → List V) (es : List E) : List (E × V) :=
  es.flatMap fun e => (list e).map fun v => (e, v)

/-- What a selector of moves is made of: values whose passes can be repeated while an entity is the
recorded one, and entities of which some states are known. -/
structure Parts (I : Type) (entities : Selector M S E) (values : Selector M S V) (set : Setting S)
    where
  recorder : Option (Recorder M E)
  held : I → M → Prop
  list : I × E → List V
  known : entities.State → Prop
  knownV : values.State → Prop
  repeats : values.Repeats set (WhileRecorded recorder held) (fun _ => Alone) list knownV

namespace Parts

variable (parts : Parts I entities values set) {i : I}

/-- The states of both parts are known. -/
def Known (st : Pairing entities values) : Prop := parts.known st.entities ∧ parts.knownV st.values

/-- The draws of entities that are left in the pass. -/
def Offers (i : I) (es : List E) (st : entities.State) (m : M) : Prop :=
  entities.Offers set parts.known (parts.held i) (Shared parts.recorder parts.held i) es st m

/-- The pairs of the given entities. -/
def pairs (i : I) (es : List E) : List (E × V) := products (fun e => parts.list (i, e)) es

/-- The pairs that are left in a pass: those of the value pass that is under way and those of the
entities to come. -/
inductive Leaves (i : I) : List (E × V) → Pairing entities values → M → Prop
  | between {es : List E} {st : entities.State} {vs : values.State} {m : M}
    (known : parts.Known ⟨st, vs, none⟩) (holds : parts.held i m)
    (few : es.length < set.patience) (offers : parts.Offers i es st m) :
    Leaves i (parts.pairs i es) ⟨st, vs, none⟩ m
  | within {e : E} {left : List V} {es : List E} {st : entities.State} {vs : values.State} {m : M}
    (known : parts.Known ⟨st, vs, some e⟩) (holds : parts.held i m)
    (few : es.length + 1 < set.patience)
    (offersV : values.Offers set parts.knownV (WhileRecorded parts.recorder parts.held (i, e)) Alone
      left vs m)
    (offers : ∀ m', WhileRecorded parts.recorder parts.held (i, e) m' → parts.Offers i es st m') :
    Leaves i (left.map (fun v => (e, v)) ++ parts.pairs i es) ⟨st, vs, some e⟩ m

/-- The computation yields the first of the pairs that are left, if there is one, and leaves the
others. -/
def Draws (i : I) (L : List (E × V)) (f : Draw M (Option (E × V) × Pairing entities values))
    (w : World M) : Prop :=
  ∃ st' w', f w = .ok ((L.head?, st'), w') ∧ parts.Known st' ∧ parts.held i w'.memory ∧
    (L ≠ [] → parts.Leaves i L.tail st' w'.memory)

variable {parts}

theorem Leaves.known {L : List (E × V)} {st : Pairing entities values} {m : M}
    (leaves : parts.Leaves i L st m) : parts.Known st ∧ parts.held i m := by
  cases leaves with
  | between known holds => exact ⟨known, holds⟩
  | within known holds => exact ⟨known, holds⟩

/-- The values for the entity in use come before the pairs of the entities after it. -/
theorem draws_within {rounds : Nat} {e : E} {left : List V} {es : List E} {st : entities.State}
    {vs : values.State} {w : World M} (known : parts.Known ⟨st, vs, some e⟩)
    (few : es.length + 1 < set.patience)
    (offersV : values.Offers set parts.knownV (WhileRecorded parts.recorder parts.held (i, e)) Alone
      left vs w.memory)
    (offers : ∀ m', WhileRecorded parts.recorder parts.held (i, e) m' → parts.Offers i es st m')
    (others : ∀ (vs : values.State) (w : World M), parts.Known ⟨st, vs, none⟩ →
      parts.Offers i es st w.memory →
      parts.Draws i (parts.pairs i es) (Pairing.nextPair set rounds ⟨st, vs, none⟩) w) :
    parts.Draws i (left.map (fun v => (e, v)) ++ parts.pairs i es)
      (Pairing.nextPair set (rounds + 1) ⟨st, vs, some e⟩) w := by
  cases left with
  | nil =>
    obtain ⟨vs', w', drawn, keptV, holds⟩ := offersV w.generator
    rw [Draws, Pairing.nextPair_passed drawn]
    exact others vs' w' ⟨known.1, keptV⟩ (offers _ holds)
  | cons v left =>
    obtain ⟨vs', w', drawn, keptV, holds, -, offersV⟩ := offersV w.generator
    exact ⟨_, w', Pairing.nextPair_found drawn, ⟨known.1, keptV⟩, holds.1,
      fun _ => .within ⟨known.1, keptV⟩ holds.1 few (offersV _ rfl) offers⟩

/-- Entities without a value are passed over, one in each round. -/
theorem draws_between {rounds : Nat} {es : List E} {st : entities.State} {vs : values.State}
    {w : World M} (enough : es.length < rounds) (few : es.length < set.patience)
    (known : parts.Known ⟨st, vs, none⟩) (offers : parts.Offers i es st w.memory) :
    parts.Draws i (parts.pairs i es) (Pairing.nextPair set rounds ⟨st, vs, none⟩) w := by
  induction es generalizing rounds st vs w with
  | nil =>
    obtain ⟨rounds, rfl⟩ := Nat.exists_eq_succ_of_ne_zero (Nat.ne_of_gt enough)
    obtain ⟨st', w', drawn, kept, holds⟩ := offers w.generator
    exact ⟨_, w', Pairing.nextPair_ended drawn, ⟨kept, known.2⟩, holds, fun some => absurd rfl some⟩
  | cons e rest ih =>
    obtain ⟨rounds, rfl⟩ := Nat.exists_eq_succ_of_ne_zero (Nat.ne_of_gt (Nat.zero_lt_of_lt enough))
    obtain ⟨st', w', drawn, kept, -, recorded, offers⟩ := offers w.generator
    obtain ⟨vs', w'', begun, keptV, holds, offersV⟩ := parts.repeats (i, e) vs w' known.2 recorded
    rw [Draws, Pairing.nextPair_begun drawn begun]
    exact draws_within ⟨kept, keptV⟩ few (offersV _ holds) offers fun _ _ known offers =>
      ih (Nat.lt_of_succ_lt_succ enough) (Nat.lt_of_succ_lt few) known offers

/-- The next pair is the first of those that are left. -/
theorem Leaves.draws {L : List (E × V)} {st : Pairing entities values} {m : M}
    (leaves : parts.Leaves i L st m) (g : Random.Generator) :
    parts.Draws i L (st.nextPair set set.patience) ⟨g, m⟩ := by
  cases leaves with
  | between known holds few offers => exact draws_between few few known offers
  | @within e left es st vs m known holds few offersV offers =>
    obtain ⟨rounds, enough⟩ := Nat.exists_eq_succ_of_ne_zero (Nat.ne_of_gt (Nat.zero_lt_of_lt few))
    rw [enough]
    refine draws_within (w := ⟨g, m⟩) known few offersV offers fun vs w known offers => ?_
    exact draws_between (by omega) (by omega) known offers

end Parts

/-! ### Moves of pairs -/

/-- A pass over the pairs in their order begins when the entities do. -/
theorem Parts.restart_leaves (parts : Parts I entities values set) {i : I} {L : List E}
    {st : Pairing entities values} {es : entities.State} {w w' : World M}
    (restarted : entities.restart set st.entities w = .ok (es, w')) (kept : parts.known es)
    (keptV : parts.knownV st.values) (few : L.length < set.patience)
    (offers : ∀ m, parts.held i m → parts.Offers i L es m) :
    st.restart set w = .ok (⟨es, st.values, none⟩, w') ∧ parts.Known ⟨es, st.values, none⟩ ∧
      ∀ m, parts.held i m → parts.Leaves i (parts.pairs i L) ⟨es, st.values, none⟩ m := by
  refine ⟨?_, ⟨kept, keptV⟩, fun m holds => .between ⟨kept, keptV⟩ holds few (offers m holds)⟩
  rw [Pairing.restart, draw_bind_eq restarted]
  rfl

theorem Parts.Leaves.offers_changes {parts : Parts I entities values set} (move : E → V → Move S)
    (name : String) {i : I} {L : List (E × V)} {st : Pairing entities values} {m : M}
    (leaves : parts.Leaves i L st m) :
    (changes entities values false move name).Offers set parts.Known (parts.held i) Alone
      (L.map fun pair => move pair.1 pair.2) st m := by
  induction L generalizing st m with
  | nil =>
    intro g
    obtain ⟨st', w', drawn, known, holds, -⟩ := leaves.draws g
    refine ⟨st', w', ?_, known, holds⟩
    simp only [changes, Bool.false_eq_true, if_false]
    rw [draw_bind_eq drawn]
    rfl
  | cons pair rest ih =>
    intro g
    obtain ⟨st', w', drawn, known, holds, leaves⟩ := leaves.draws g
    refine ⟨st', w', ?_, known, holds, rfl, ?_⟩
    · simp only [changes, Bool.false_eq_true, if_false]
      rw [draw_bind_eq drawn]
      rfl
    · rintro m' rfl
      exact ih (leaves (List.cons_ne_nil _ _))

theorem Parts.repeats_changes (parts : Parts I entities values set) {listE : I → List E}
    (repeatsE : entities.Repeats set parts.held (Shared parts.recorder parts.held) listE parts.known)
    (few : ∀ i, (listE i).length < set.patience) (move : E → V → Move S) (name : String) :
    (changes entities values false move name).Repeats set parts.held (fun _ => Alone)
      (fun i => (listE i).flatMap fun e => (parts.list (i, e)).map fun v => move e v)
      parts.Known := by
  intro i st w known holds
  obtain ⟨es, w', restarted, kept, holds, offers⟩ := repeatsE i st.entities w known.1 holds
  obtain ⟨restarted, known, leaves⟩ :=
    parts.restart_leaves restarted kept known.2 (few i) offers
  refine ⟨_, w', restarted, known, holds, fun m holds => ?_⟩
  have offers := (leaves m holds).offers_changes move name
  simpa [Parts.pairs, products, List.map_flatMap, Function.comp_def] using offers

end Pairs

/-- The moves of a run and a target: the run as it is and, where asked for, the other way round if
it has two entities or more. -/
def placements (v : ChainedVariable S) (reversingToo : Bool) (run : SubChain) (target : Handle) :
    List (Move S) :=
  partMove v run target false ::
    if reversingToo ∧ 1 < run.length then [partMove v run target true] else []

section Runs

variable {v : ChainedVariable S} {runs : Selector M S SubChain} {values : Selector M S Handle}
variable {reversingToo : Bool} {set : Setting S} {parts : Parts I runs values set} {i : I}

theorem next_subChainChanges {st st' : Pairing runs values} {w w' : World M}
    {pair : Option (SubChain × Handle)}
    (drawn : st.nextPair set set.patience w = .ok ((pair, st'), w')) :
    (subChainChanges v runs values reversingToo false).next set (st, none) w =
      .ok ((pair.map fun pair => partMove v pair.1 pair.2 false, st',
        pair.bind fun pair => if reversingToo ∧ 1 < pair.1.length then
          some (partMove v pair.1 pair.2 true) else none), w') := by
  simp only [subChainChanges, Bool.false_eq_true, if_false]
  rw [draw_bind_eq drawn]
  rcases pair with _ | ⟨run, target⟩
  · rfl
  · by_cases reversed : reversingToo = true ∧ 1 < run.length
    · simp [reversed]
      rfl
    · simp [reversed]
      rfl

variable (v reversingToo) in
theorem Parts.Leaves.offers_subChainChanges {L : List (SubChain × Handle)}
    {st : Pairing runs values} {m : M} (leaves : parts.Leaves i L st m) :
    (subChainChanges v runs values reversingToo false).Offers set (fun st => parts.Known st.1)
      (parts.held i) Alone (L.flatMap fun pair => placements v reversingToo pair.1 pair.2)
      (st, none) m := by
  induction L generalizing st m with
  | nil =>
    intro g
    obtain ⟨st', w', drawn, known, holds, -⟩ := leaves.draws g
    exact ⟨_, w', next_subChainChanges drawn, known, holds⟩
  | cons pair rest ih =>
    intro g
    obtain ⟨st', w', drawn, known, holds, leaves⟩ := leaves.draws g
    have others := ih (leaves (List.cons_ne_nil _ _))
    refine ⟨_, w', next_subChainChanges drawn, known, holds, rfl, ?_⟩
    rintro m' rfl
    dsimp only [List.head?_cons, Option.bind_some]
    by_cases reversed : reversingToo = true ∧ 1 < pair.1.length
    · rw [if_pos reversed, if_pos reversed]
      -- The other way round is offered from what was put aside, without another pair.
      refine fun g => ⟨(st', none), ⟨g, w'.memory⟩, rfl, known, holds, rfl, ?_⟩
      rintro m' rfl
      exact others
    · rw [if_neg reversed, if_neg reversed]
      exact others

variable (v reversingToo parts) in
/-- A pass over the moves of runs begins when the runs do. -/
theorem Parts.restart_subChainChanges {L : List SubChain}
    {st : (subChainChanges v runs values reversingToo false).State} {rs : runs.State}
    {w w' : World M} (restarted : runs.restart set st.1.entities w = .ok (rs, w'))
    (kept : parts.known rs) (keptV : parts.knownV st.1.values) (few : L.length < set.patience)
    (offers : ∀ m, parts.held i m → parts.Offers i L rs m) :
    ∃ st', (subChainChanges v runs values reversingToo false).restart set st w = .ok (st', w') ∧
      parts.Known st'.1 ∧ ∀ m, parts.held i m →
        (subChainChanges v runs values reversingToo false).Offers set (fun st => parts.Known st.1)
          (parts.held i) Alone (L.flatMap fun run => (parts.list (i, run)).flatMap fun target =>
            placements v reversingToo run target) st' m := by
  obtain ⟨restarted, known, leaves⟩ := parts.restart_leaves restarted kept keptV few offers
  refine ⟨(_, none), ?_, known, fun m holds => ?_⟩
  · simp only [subChainChanges]
    rw [draw_bind_eq restarted]
    rfl
  · have offers := (leaves m holds).offers_subChainChanges v reversingToo
    simpa [Parts.pairs, products, List.flatMap_assoc, List.flatMap_map] using offers

theorem Parts.repeats_subChainChanges (parts : Parts I runs values set) {listR : I → List SubChain}
    (repeatsR : runs.Repeats set parts.held (Shared parts.recorder parts.held) listR parts.known)
    (few : ∀ i, (listR i).length < set.patience) :
    (subChainChanges v runs values reversingToo false).Repeats set parts.held (fun _ => Alone)
      (fun i => (listR i).flatMap fun run => (parts.list (i, run)).flatMap fun target =>
        placements v reversingToo run target) fun st => parts.Known st.1 := by
  intro i st w known holds
  obtain ⟨rs, w', restarted, kept, holds, offers⟩ := repeatsR i st.1.entities w known.1 holds
  obtain ⟨st', restarted, known, offers⟩ :=
    Parts.restart_subChainChanges v reversingToo parts restarted kept known.2 (few i) offers
  exact ⟨st', w', restarted, known, holds, offers⟩

end Runs

/-! ### Several selectors as one -/

section Union

variable {child : Selector M S C} {children : List (Selector M S C)} {set : Setting S}

theorem next_union_first {st : child.State} {sts : States children} {st' : child.State}
    {w w' : World M} {c : C} (drawn : child.next set st w = .ok ((some c, st'), w')) :
    (union (child :: children) false).next set (0, st, sts) w = .ok ((some c, 0, st', sts), w') := by
  simp only [union, Bool.false_eq_true, if_false, States.nextFrom]
  rw [draw_bind_eq drawn]
  rfl

theorem next_union_over {st : child.State} {sts : States children} {st' : child.State}
    {w w' w'' : World M} {c : Option C} {n : Nat} {sts' : States children}
    (drawn : child.next set st w = .ok ((none, st'), w'))
    (others : (union children false).next set (0, sts) w' = .ok ((c, n, sts'), w'')) :
    (union (child :: children) false).next set (0, st, sts) w =
      .ok ((c, n + 1, st', sts'), w'') := by
  simp only [union, Bool.false_eq_true, if_false, States.nextFrom] at others ⊢
  rw [draw_bind_eq drawn]
  dsimp only
  rw [draw_bind_eq others]
  rfl

theorem next_union_later {st : child.State} {sts : States children} {i : Nat}
    {w w' : World M} {c : Option C} {n : Nat} {sts' : States children}
    (others : (union children false).next set (i, sts) w = .ok ((c, n, sts'), w')) :
    (union (child :: children) false).next set (i + 1, st, sts) w =
      .ok ((c, n + 1, st, sts'), w') := by
  simp only [union, Bool.false_eq_true, if_false, States.nextFrom] at others ⊢
  rw [draw_bind_eq others]
  rfl

variable {known : child.State → Prop} {knownAll : States children → Prop} {held : M → Prop}

/-- Once the first selector is done with, the others go on. -/
theorem offers_union_later {L : List C} {st : child.State} {i : Nat} {sts : States children} {m : M}
    (kept : known st)
    (offers : (union children false).Offers set (fun st => knownAll st.2) held Alone L (i, sts) m) :
    (union (child :: children) false).Offers set (fun st => known st.2.1 ∧ knownAll st.2.2) held
      Alone L (i + 1, st, sts) m := by
  induction L generalizing i sts m with
  | nil =>
    intro g
    obtain ⟨st', w', drawn, others, holds⟩ := offers g
    exact ⟨_, w', next_union_later drawn, ⟨kept, others⟩, holds⟩
  | cons c rest ih =>
    intro g
    obtain ⟨st', w', drawn, others, holds, -, offers⟩ := offers g
    exact ⟨_, w', next_union_later drawn, ⟨kept, others⟩, holds, rfl, fun m' left =>
      ih (offers m' left)⟩

theorem offers_union {L L' : List C} {st : child.State} {sts : States children} {m : M}
    (others : knownAll sts) (offers : child.Offers set known held Alone L st m)
    (offersAll : ∀ m, held m →
      (union children false).Offers set (fun st => knownAll st.2) held Alone L' (0, sts) m) :
    (union (child :: children) false).Offers set (fun st => known st.2.1 ∧ knownAll st.2.2) held
      Alone (L ++ L') (0, st, sts) m := by
  induction L generalizing st m with
  | nil =>
    -- The draw that finds the first selector at its end goes on with the others.
    cases L' with
    | nil =>
      intro g
      obtain ⟨st', w', drawn, kept, holds⟩ := offers g
      obtain ⟨sts', w'', drawn', others, holds⟩ := offersAll _ holds w'.generator
      exact ⟨_, w'', next_union_over drawn drawn', ⟨kept, others⟩, holds⟩
    | cons c rest =>
      intro g
      obtain ⟨st', w', drawn, kept, holds⟩ := offers g
      obtain ⟨sts', w'', drawn', others, holds, -, offers⟩ := offersAll _ holds w'.generator
      exact ⟨_, w'', next_union_over drawn drawn', ⟨kept, others⟩, holds, rfl, fun m' left =>
        offers_union_later kept (offers m' left)⟩
  | cons c rest ih =>
    intro g
    obtain ⟨st', w', drawn, kept, holds, -, offers⟩ := offers g
    exact ⟨_, w', next_union_first drawn, ⟨kept, others⟩, holds, rfl, fun m' left =>
      ih (offers m' left)⟩

theorem repeats_union_nil {held : I → M → Prop} :
    (union ([] : List (Selector M S C)) false).Repeats set held (fun _ => Alone) (fun _ => [])
      fun _ => True :=
  fun _ st w _ holds => ⟨(0, st.2), w, rfl, trivial, holds, fun m holds g =>
    ⟨(0, st.2), ⟨g, m⟩, rfl, trivial, holds⟩⟩

/-- The passes of a selector and of the others after it are joined. -/
theorem repeats_union_cons {held : I → M → Prop} {list listAll : I → List C}
    (repeats : child.Repeats set held (fun _ => Alone) list known)
    (repeatsAll : (union children false).Repeats set held (fun _ => Alone) listAll
      fun st => knownAll st.2) :
    (union (child :: children) false).Repeats set held (fun _ => Alone)
      (fun i => list i ++ listAll i) fun st => known st.2.1 ∧ knownAll st.2.2 := by
  rintro i ⟨n, st, sts⟩ w ⟨kept, others⟩ holds
  obtain ⟨st', w', restarted, kept, holds, offers⟩ := repeats i st w kept holds
  obtain ⟨all, w'', restartedAll, others, holds, offersAll⟩ := repeatsAll i (n, sts) w' others holds
  obtain ⟨sts', _, changed, same⟩ := exists_of_draw_bind restartedAll
  cases same
  refine ⟨(0, st', sts'), w'', ?_, ⟨kept, others⟩, holds, fun m holds =>
    offers_union others (offers m holds) offersAll⟩
  change ((do
    let st ← child.restart set st
    let sts ← States.mapM (fun child => child.restart set) children sts
    return (st, sts)) >>= fun sts => pure (0, sts) : Draw M _) w = _
  rw [bind_assoc, draw_bind_eq restarted, bind_assoc, draw_bind_eq changed]
  rfl

end Union

/-! ## Selectors in their own order -/

/-- Selectors whose passes follow those of their parts, with the candidates of a pass that is begun
in a situation and the states that are known. The parts are any whose passes can be repeated. The
values may depend on the entity that is the recorded one while they are gone through, and a pass
has fewer entities than there is patience, since those without a value are passed over. -/
inductive Enumeration (set : Setting S) (held : I → M → Prop) : {C : Type} →
    (sel : Selector M S C) → (I → List C) → (sel.State → Prop) → Prop
  | given {C : Type} {sel : Selector M S C} {list : I → List C} {known : sel.State → Prop}
    (repeats : sel.Repeats set held (fun _ => Alone) list known) :
    Enumeration set held sel list known
  | changes {E V : Type} {entities : Selector M S E} {values : Selector M S V}
    {recorder : Option (Recorder M E)} {listE : I → List E} {listV : I × E → List V}
    {knownE : entities.State → Prop} {knownV : values.State → Prop}
    (repeatsE : entities.Repeats set held (Shared recorder held) listE knownE)
    (repeatsV : values.Repeats set (WhileRecorded recorder held) (fun _ => Alone) listV knownV)
    (few : ∀ i, (listE i).length < set.patience) (move : E → V → Move S) (name : String) :
    Enumeration set held (changes entities values false move name)
      (fun i => (listE i).flatMap fun e => (listV (i, e)).map fun v => move e v)
      fun st => knownE st.entities ∧ knownV st.values
  | subChainChanges {v : ChainedVariable S} {runs : Selector M S SubChain}
    {values : Selector M S Handle} {recorder : Option (Recorder M SubChain)}
    {listR : I → List SubChain} {listV : I × SubChain → List Handle}
    {knownR : runs.State → Prop} {knownV : values.State → Prop}
    (repeatsR : runs.Repeats set held (Shared recorder held) listR knownR)
    (repeatsV : values.Repeats set (WhileRecorded recorder held) (fun _ => Alone) listV knownV)
    (few : ∀ i, (listR i).length < set.patience) (reversingToo : Bool) :
    Enumeration set held (subChainChanges v runs values reversingToo false)
      (fun i => (listR i).flatMap fun run => (listV (i, run)).flatMap fun target =>
        placements v reversingToo run target)
      fun st => knownR st.1.entities ∧ knownV st.1.values
  | unionNil {C : Type} : Enumeration set held (union ([] : List (Selector M S C)) false)
      (fun _ => []) fun _ => True
  | unionCons {C : Type} {child : Selector M S C} {children : List (Selector M S C)}
    {list listAll : I → List C} {known : child.State → Prop} {knownAll : States children → Prop}
    (first : Enumeration set held child list known)
    (others : Enumeration set held (union children false) listAll fun st => knownAll st.2) :
    Enumeration set held (union (child :: children) false) (fun i => list i ++ listAll i)
      fun st => known st.2.1 ∧ knownAll st.2.2

section Enumeration

variable {set : Setting S} {held : I → M → Prop} {sel : Selector M S C} {list : I → List C}
variable {known : sel.State → Prop}

/-- The passes of the whole can be repeated, too. -/
theorem Enumeration.repeats (enumeration : Enumeration set held sel list known) :
    sel.Repeats set held (fun _ => Alone) list known := by
  induction enumeration with
  | given repeats => exact repeats
  | changes repeatsE repeatsV few move name =>
    exact Parts.repeats_changes ⟨_, held, _, _, _, repeatsV⟩ repeatsE few move name
  | subChainChanges repeatsR repeatsV few reversingToo =>
    exact Parts.repeats_subChainChanges ⟨_, held, _, _, _, repeatsV⟩ repeatsR few
  | unionNil => exact repeats_union_nil
  | unionCons first others ihFirst ihOthers => exact repeats_union_cons ihFirst ihOthers

/-- Every pass of a selector in its own order goes through the products of the passes of its parts:
each entity with each of the values that it has while it is the recorded one, each run with each
target, as it is and then the other way round where that is asked for and the run has two entities
or more, and one selector after the other. Wherever a pass is broken off, the next one has the same
candidates again. -/
theorem enumerates_products (enumeration : Enumeration set held sel list known) {i : I}
    {st : sel.State} {w : World M} (kept : known st) (holds : held i w.memory) (n : Nat) :
    ∃ st₁ st₂ w₁ w₂, sel.restart set st w = .ok (st₁, w₁) ∧
      sel.take set n st₁ w₁ = .ok (((list i).take n, st₂), w₂) ∧ held i w₂.memory ∧
      ∀ (k : Nat) (w₃ : World M), held i w₃.memory →
        ∃ st₃ st₄ w₄ w₅, sel.restart set st₂ w₃ = .ok (st₃, w₄) ∧
          sel.take set k st₃ w₄ = .ok (((list i).take k, st₄), w₅) := by
  obtain ⟨st₁, w₁, restarted, kept, holds, offers⟩ := enumeration.repeats i st w kept holds
  obtain ⟨st₂, w₂, taken, kept, holds⟩ := (offers _ holds).take kept holds n w₁.generator
  refine ⟨st₁, st₂, w₁, w₂, restarted, taken, holds, fun k w₃ holds => ?_⟩
  obtain ⟨st₃, w₄, restarted, kept, holds, offers⟩ := enumeration.repeats i st₂ w₃ kept holds
  obtain ⟨st₄, w₅, taken, -, -⟩ := (offers _ holds).take kept holds k w₄.generator
  exact ⟨st₃, st₄, w₄, w₅, restarted, taken⟩

end Enumeration

/-! ### Numbers that are given to themselves -/

namespace Numbers

/-- Two numbers, each of which is remembered when it is drawn. -/
def remembered : Selector (Recordings Nat) Unit Nat :=
  (source (fun _ => #[3, 5]) false).recording (Recordings.recorder "number")

/-- A variable that is not stored anywhere. -/
def unstored : PlainVariable Unit := ⟨"x", 0, fun _ _ => none, fun s _ _ => s⟩

/-- Gives a number to itself. -/
def selfChanges : Selector (Recordings Nat) Unit (Move Unit) :=
  changes remembered (replaying (Recordings.recorder "number")) false
    (fun e v => .change unstored e (some v)) "x"

/-- What a search leads the numbers to within a step. -/
def InStep (st : remembered.State) : Prop :=
  ∃ inPass, remembered.Reached (fun _ _ => True) (.step () ()) inPass st

theorem repeats_remembered (set : Setting Unit) :
    remembered.Repeats set (fun (_ : Unit) _ => True)
      (Shared (some (Recordings.recorder "number")) fun _ _ => True) (fun _ => [3, 5]) InStep := by
  have holds (m : Recordings Nat) (c : Option Nat) :
      (Recordings.recorder "number").recorded ((Recordings.recorder "number").record c m) = c := by
    change (m.set "number" c).get "number" = c
    rw [Recordings.get_set, if_pos rfl]
  exact ((servesSource fun _ => #[3, 5]).passes_recording holds fun _ _ _ _ listed => listed).repeats
    trivial (fun _ _ _ _ _ _ => trivial) fun _ _ _ _ listed => listed

theorem inStep_start : InStep remembered.start := by
  have phase : remembered.Reached (fun _ _ => True) (.phase ()) false remembered.start :=
    .announced .start (show Point.after .phaseStarted () .idle = _ from rfl) trivial
      (show remembered.handle .phaseStarted ⟨(), 9⟩ _ ⟨.ofSeed 0, {}⟩ = _ from rfl)
  exact ⟨false, .announced phase (show Point.after .stepStarted () (.phase ()) = _ from rfl) trivial
    (show remembered.handle .stepStarted ⟨(), 9⟩ _ ⟨.ofSeed 0, {}⟩ = _ from rfl)⟩

theorem enumerates_products_selfChanges :
    ∃ st₁ st₂ w₁ w₂,
      selfChanges.restart ⟨(), 9⟩ selfChanges.start ⟨.ofSeed 0, {}⟩ = .ok (st₁, w₁) ∧
      selfChanges.take ⟨(), 9⟩ 1 st₁ w₁ = .ok (([.change unstored 3 (some 3)], st₂), w₂) ∧ True ∧
      ∀ (k : Nat) (w₃ : World (Recordings Nat)), True →
        ∃ st₃ st₄ w₄ w₅, selfChanges.restart ⟨(), 9⟩ st₂ w₃ = .ok (st₃, w₄) ∧
          selfChanges.take ⟨(), 9⟩ k st₃ w₄ =
            .ok (([.change unstored 3 (some 3), .change unstored 5 (some 5)].take k, st₄), w₅) :=
  enumerates_products (i := ()) (.changes (repeats_remembered ⟨(), 9⟩)
    (repeats_replaying (Recordings.recorder "number") _) (fun _ => by decide)
    (fun e v => .change unstored e (some v)) "x") ⟨inStep_start, trivial⟩ trivial 1

end Numbers

end Selector

end PlanSearch
