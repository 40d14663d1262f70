import Mathlib.Data.Set.Card
import PlanSearch.Proofs.Selector.Arranged
import PlanSearch.Proofs.Selector.Origins
import PlanSearch.Selector.Cached

/-!
# What the passes of a step range over

Within a step, the state of a selector determines which candidates its passes can begin with. A pass
may depend on what the selector sees of the memory, but neither the draws of a pass nor the beginning
of another one change what passes are possible, nor the size of the selector. That the size is not
exceeded is thereby a matter of lists of candidates, and no longer one of calls. For each layer that a
selector can be put together from, the possible passes are those of the layer below, changed in one
way.
-/

namespace PlanSearch.Selector

variable {M S C D O : Type}

/-! ## Different candidates -/

/-- At most so many different candidates. -/
def Within (k : Nat) (cs : List C) : Prop := ∃ pool : List C, pool.length ≤ k ∧ cs ⊆ pool

namespace Within

variable {k n : Nat} {cs ds : List C}

theorem of_length (short : cs.length ≤ k) : Within k cs := ⟨cs, short, List.Subset.refl cs⟩

theorem mono (within : Within k cs) (le : k ≤ n) : Within n cs := by
  obtain ⟨pool, small, sub⟩ := within
  exact ⟨pool, small.trans le, sub⟩

theorem of_subset (within : Within k cs) (sub : ds ⊆ cs) : Within k ds := by
  obtain ⟨pool, small, all⟩ := within
  exact ⟨pool, small, fun c member => all (sub member)⟩

theorem pos {c : C} (within : Within k cs) (member : c ∈ cs) : 0 < k := by
  obtain ⟨pool, small, sub⟩ := within
  exact (List.length_pos_of_mem (sub member)).trans_le small

theorem map (f : C → D) (within : Within k cs) : Within k (cs.map f) := by
  obtain ⟨pool, small, sub⟩ := within
  exact ⟨pool.map f, by rwa [List.length_map], List.map_subset f sub⟩

theorem append (within : Within k cs) (within' : Within n ds) : Within (k + n) (cs ++ ds) := by
  obtain ⟨pool, small, sub⟩ := within
  obtain ⟨pool', small', sub'⟩ := within'
  refine ⟨pool ++ pool', ?_, List.append_subset.2 ⟨?_, ?_⟩⟩
  · rw [List.length_append]
    exact Nat.add_le_add small small'
  · exact List.subset_append_of_subset_left _ sub
  · exact List.subset_append_of_subset_right _ sub'

theorem flatMap {l : List D} {f : D → List C} (each : ∀ d ∈ l, Within k (f d)) :
    Within (l.length * k) (l.flatMap f) := by
  induction l with
  | nil => exact ⟨[], Nat.zero_le _, List.Subset.refl _⟩
  | cons d rest ih =>
    obtain ⟨first, others⟩ := List.forall_mem_cons.1 each
    rw [List.length_cons, Nat.succ_mul, Nat.add_comm]
    exact first.append (ih others)

theorem bind (within : Within k cs) (f : C → List D) (short : ∀ c, (f c).length ≤ n) :
    Within (k * n) (cs.flatMap f) := by
  obtain ⟨pool, small, sub⟩ := within
  have whole : Within (pool.length * n) (pool.flatMap f) := flatMap fun c _ => of_length (short c)
  refine (whole.mono (Nat.mul_le_mul_right n small)).of_subset fun d member => ?_
  obtain ⟨c, there, inside⟩ := List.mem_flatMap.1 member
  exact List.mem_flatMap.2 ⟨c, sub there, inside⟩

theorem ncard_le (within : Within k cs) : {c | c ∈ cs}.ncard ≤ k := by
  obtain ⟨pool, small, sub⟩ := within
  classical
  calc {c | c ∈ cs}.ncard ≤ (pool.toFinset : Set C).ncard :=
        Set.ncard_le_ncard (fun c member => by simpa using sub member)
    _ = pool.toFinset.card := Set.ncard_coe_finset _
    _ ≤ pool.length := pool.toFinset_card_le
    _ ≤ k := small

end Within

/-! ## Possible passes -/

/-- A call leaves the possible passes, the size, and what is seen of the memory as they are. -/
structure Stays (sel : Selector M S C) (can : S → sel.State → O → List C → Prop) (view : M → O)
    (s : S) (st st' : sel.State) (m m' : M) : Prop where
  can : can s st' = can s st
  size : sel.size s st' = sel.size s st
  view : view m' = view m

section Stays

variable {sel : Selector M S C} {can : S → sel.State → O → List C → Prop} {view : M → O} {s : S}
variable {st st₁ st₂ : sel.State} {m m₁ m₂ : M}

theorem Stays.refl : Stays sel can view s st st m m := ⟨rfl, rfl, rfl⟩

theorem Stays.trans (first : Stays sel can view s st st₁ m m₁)
    (second : Stays sel can view s st₁ st₂ m₁ m₂) : Stays sel can view s st st₂ m m₂ :=
  ⟨second.can.trans first.can, second.size.trans first.size, second.view.trans first.view⟩

end Stays

/-- The possible passes of a selector that is shown suitable solutions. -/
structure Ranges (sel : Selector M S C) (shown : Point S → Setting S → Prop) (view : M → O) where
  /-- What is known of the states of the selector. -/
  Inv : Point S → sel.State → Prop
  /-- The candidates with which a pass can begin, if that is seen of the memory. -/
  can : S → sel.State → O → List C → Prop
  /-- The candidates that the pass under way has yielded. -/
  During : S → sel.State → O → List C → Prop
  can_of_during : ∀ {first now st o cs}, Inv (.step first now) st → During now st o cs →
    can now st o cs
  sized : ∀ {first now st}, Inv (.step first now) st → Overflows (sel.size now st)
  start : Inv .idle sel.start
  handle : ∀ {p p' hook set st st'} {w w' : World M}, Inv p st →
    p.after hook set.solution = some p' → shown p' set →
    sel.handle hook set st w = .ok (st', w') → Inv p' st'
  restart : ∀ {first set st st'} {w w' : World M}, Inv (.step first set.solution) st →
    sel.restart set st w = .ok (st', w') → Inv (.step first set.solution) st' ∧
      Stays sel can view set.solution st st' w.memory w'.memory ∧
      During set.solution st' (view w.memory) []
  next : ∀ {first set st c st'} {w w' : World M}, Inv (.step first set.solution) st →
    sel.next set st w = .ok ((c, st'), w') → Inv (.step first set.solution) st' ∧
      Stays sel can view set.solution st st' w.memory w'.memory ∧
      ∀ cs, During set.solution st (view w.memory) cs →
        During set.solution st' (view w.memory) (cs ++ c.toList)

namespace Ranges

variable {sel : Selector M S C} {shown : Point S → Setting S → Prop} {view : M → O}

/-- There is a size in every step. -/
def Told (ranges : sel.Ranges shown view) : Prop :=
  ∀ {first now st}, ranges.Inv (.step first now) st → ∃ k, sel.size now st = .ok k

/-- A pass yields no more different candidates than the size says. -/
def Bounded (ranges : sel.Ranges shown view) : Prop :=
  ∀ {first now st k o cs}, ranges.Inv (.step first now) st → sel.size now st = .ok k →
    ranges.can now st o cs → Within k cs

/-- A pass yields no more candidates than the size says, different ones or not. -/
def Counted (ranges : sel.Ranges shown view) : Prop :=
  ∀ {first now st k o cs}, ranges.Inv (.step first now) st → sel.size now st = .ok k →
    ranges.can now st o cs → cs.length ≤ k

/-- The passes that see the same of the memory yield no more different candidates together than the
size says. -/
def Pooled (ranges : sel.Ranges shown view) : Prop :=
  ∀ {first now st k}, ranges.Inv (.step first now) st → sel.size now st = .ok k →
    ∃ pool : O → List C, (∀ o, (pool o).length ≤ k) ∧
      ∀ o cs, ranges.can now st o cs → cs ⊆ pool o

/-- The passes that see the same of the memory yield the candidates of one list, in its order. -/
def Listed (ranges : sel.Ranges shown view) : Prop :=
  ∀ {first now st k}, ranges.Inv (.step first now) st → sel.size now st = .ok k →
    ∃ list : O → List C, (∀ o, (list o).length ≤ k) ∧
      ∀ o cs, ranges.can now st o cs → cs <+: list o

/-- Whatever pass is under way, a candidate is only drawn if the size is positive. -/
def Positive (ranges : sel.Ranges shown view) : Prop :=
  ∀ {first set st c st' k} {w w' : World M}, ranges.Inv (.step first set.solution) st →
    sel.next set st w = .ok ((some c, st'), w') → sel.size set.solution st = .ok k → 0 < k

variable {ranges : sel.Ranges shown view}

theorem Listed.counted (listed : ranges.Listed) : ranges.Counted := by
  intro first now st k o cs known size can
  obtain ⟨list, short, lists⟩ := listed known size
  exact (lists o cs can).length_le.trans (short o)

theorem Listed.pooled (listed : ranges.Listed) : ranges.Pooled := by
  intro first now st k known size
  obtain ⟨list, short, lists⟩ := listed known size
  exact ⟨list, short, fun o cs can => (lists o cs can).subset⟩

theorem Counted.bounded (counted : ranges.Counted) : ranges.Bounded :=
  fun known size can => .of_length (counted known size can)

theorem Pooled.bounded (pooled : ranges.Pooled) : ranges.Bounded := by
  intro first now st k o cs known size can
  obtain ⟨pool, small, all⟩ := pooled known size
  exact ⟨pool o, small o, all o cs can⟩

end Ranges

variable {sel child : Selector M S C} {shown : Point S → Setting S → Prop} {view : M → O}

theorem exists_of_generate {α : Type} {f : Random.Generator → Except Fault (α × Random.Generator)}
    {a : α} {w w' : World M} (ran : Draw.generate f w = .ok (a, w')) :
    f w.generator = .ok (a, w'.generator) ∧ w'.memory = w.memory := by
  unfold Draw.generate at ran
  split at ran
  · cases ran
  · rename_i made
    cases ran
    exact ⟨made, rfl⟩

theorem lift_eq_ok {α : Type} {x : Except Fault α} {a : α} {w w' : World M} :
    Draw.lift x w = .ok (a, w') ↔ x = .ok a ∧ w' = w := by
  cases x with
  | error e => simp [Draw.lift, Except.map]
  | ok b => simp [Draw.lift, Except.map, eq_comm]

/-! ## Candidates from the solution -/

section Source

variable (items : S → Array C)

theorem take_of_next_source {set : Setting S} {cursor cursor' : Nat} {c : Option C} {w w' : World M}
    (drawn : (source items false).next set cursor w = .ok ((c, cursor'), w')) :
    w' = w ∧ (items set.solution).toList.take cursor' =
      (items set.solution).toList.take cursor ++ c.toList := by
  simp only [source_next, Bool.false_eq_true, if_false] at drawn
  cases found : (items set.solution)[cursor]? with
  | none =>
    rw [found] at drawn
    cases drawn
    exact ⟨rfl, by simp⟩
  | some x =>
    rw [found] at drawn
    cases drawn
    exact ⟨rfl, by rw [List.take_add_one, Array.getElem?_toList, found]⟩

/-- The candidates in their order. -/
def rangesListed : (source items false : Selector M S C).Ranges shown view where
  Inv _ _ := True
  can s _ _ cs := cs <+: (items s).toList
  During s (cursor : Nat) _ cs := cs = (items s).toList.take cursor
  can_of_during _ during := during ▸ List.take_prefix ..
  sized _ := .ok _
  start := trivial
  handle _ _ _ _ := trivial
  restart _ ran := by
    cases ran
    exact ⟨trivial, ⟨rfl, rfl, rfl⟩, rfl⟩
  next _ ran := by
    obtain ⟨rfl, taken⟩ := take_of_next_source items ran
    exact ⟨trivial, ⟨rfl, rfl, rfl⟩, fun cs during => during ▸ taken.symm⟩

theorem listed_source : (rangesListed items : (source items false).Ranges shown view).Listed := by
  rintro first now st k - ⟨⟩
  exact ⟨fun _ => (items now).toList, fun _ => by simp, fun _ _ can => can⟩

theorem positive_listed :
    (rangesListed items : (source items false).Ranges shown view).Positive := by
  rintro first set st c st' k w w' - drawn ⟨⟩
  exact Array.size_pos_of_mem (mem_of_next_source drawn)

/-- A uniform draw yields one of the candidates. -/
theorem mem_of_next_drawn {set : Setting S} {cursor cursor' : Nat} {c : Option C} {w w' : World M}
    (drawn : (source items true).next set cursor w = .ok ((c, cursor'), w')) :
    w'.memory = w.memory ∧ ∀ x ∈ c, x ∈ items set.solution := by
  simp only [source_next, if_true] at drawn
  split at drawn
  · cases drawn
    exact ⟨rfl, fun x found => by cases found⟩
  · obtain ⟨i, w₁, below, drawn⟩ := exists_of_draw_bind drawn
    cases drawn
    exact ⟨(exists_of_generate below).2, fun x found => Array.mem_of_getElem? found⟩

/-- The candidates by uniform draws. -/
def rangesDrawn : (source items true : Selector M S C).Ranges shown view where
  Inv _ _ := True
  can s _ _ cs := cs ⊆ (items s).toList
  During s _ _ cs := cs ⊆ (items s).toList
  can_of_during _ during := during
  sized _ := .ok _
  start := trivial
  handle _ _ _ _ := trivial
  restart _ ran := by
    cases ran
    exact ⟨trivial, ⟨rfl, rfl, rfl⟩, List.nil_subset _⟩
  next _ ran := by
    obtain ⟨memory, member⟩ := mem_of_next_drawn items ran
    refine ⟨trivial, ⟨rfl, rfl, congrArg view memory⟩, fun cs during => ?_⟩
    refine List.append_subset.2 ⟨during, fun x found => ?_⟩
    simpa using member x (by simpa using found)

theorem pooled_source : (rangesDrawn items : (source items true).Ranges shown view).Pooled := by
  rintro first now st k - ⟨⟩
  exact ⟨fun _ => (items now).toList, fun _ => by simp, fun _ _ can => can⟩

theorem positive_drawn : (rangesDrawn items : (source items true).Ranges shown view).Positive := by
  rintro first set st c st' k w w' - drawn ⟨⟩
  exact Array.size_pos_of_mem ((mem_of_next_drawn items drawn).2 c rfl)

end Source

/-! ## Kept lists -/

/-- Picks from a kept list, and what becomes of it when a pass begins, change neither the memory nor
what a pass over the list can begin with. -/
structure Arrangement.Ranges (how : Arrangement M S C D) (can : Array D → List C → Prop)
    (during : Array D → Nat → List C → Prop) : Prop where
  can_of_during : ∀ {items cursor cs}, during items cursor cs → can items cs
  shuffle : ∀ {items items'} {w w' : World M}, how.shuffle items w = .ok (items', w') →
    w'.memory = w.memory ∧ items'.size = items.size ∧ can items' = can items ∧ during items' 0 []
  pick : ∀ {items cursor c} {w w' : World M}, how.pick items cursor w = .ok (c, w') →
    w'.memory = w.memory ∧ ∀ x ∈ c, 0 < items.size ∧
      ∀ cs, during items cursor cs → during items (cursor + 1) (cs ++ [x])

section Kept

variable {how : Arrangement M S C D} {can : Array D → List C → Prop}
variable {during : Array D → Nat → List C → Prop} (ranges : how.Ranges can during)
variable {cache : CacheType}

omit ranges in
theorem filled_of_fill {set : Setting S} {st st' : Kept child D} {w w' : World M}
    (ran : st.fill how set w = .ok (st', w')) : st'.filled := by
  obtain ⟨⟨candidates, inner⟩, w₁, -, ran⟩ := exists_of_draw_bind ran
  obtain ⟨items, w₂, -, ran⟩ := exists_of_draw_bind ran
  cases ran
  rfl

omit ranges in
theorem filled_of_step (cached : cache.isCached) {st : Kept child D} {first now : S}
    (known : (cache.filledWith (.step first now)).isSome → st.filled) : st.filled := by
  obtain ⟨s, filled⟩ := cache.exists_filledWith cached first now
  exact known (filled ▸ rfl)

omit ranges in
theorem size_of_filled {st : Kept child D} (filled : st.filled) (s : S) :
    (child.keeping cache how).size s st = .ok st.items.size :=
  if_pos filled

/-- In a step the list is there, and whatever its candidates were made of is not looked at. -/
def rangesKeeping (cached : cache.isCached) : (child.keeping cache how).Ranges shown view where
  Inv p (st : Kept child D) := (cache.filledWith p).isSome → st.filled
  can _ (st : Kept child D) _ cs := can st.items cs
  During _ (st : Kept child D) _ cs := during st.items st.cursor cs
  can_of_during _ during := ranges.can_of_during during
  sized known := size_of_filled (filled_of_step cached known) _ ▸ .ok _
  start := by
    cases cache <;> rintro ⟨⟩
  handle {p p' hook set _ _ _ _} known due _ ran := by
    obtain ⟨inner, w₁, -, ran⟩ := exists_of_draw_bind ran
    -- The list is made, kept or dropped as the cache and the announcement say.
    cases hook <;> cases p <;> cases due <;> cases cache <;>
      first
      | cases ran
        exact known
      | cases ran
        rintro ⟨⟩
      | exact fun _ => filled_of_fill ran
  restart {first set st st' w w'} known ran := by
    obtain ⟨items, w₁, shuffled, ran⟩ := exists_of_draw_bind ran
    cases ran
    obtain ⟨memory, size, same, begun⟩ := ranges.shuffle shuffled
    refine ⟨known, ⟨funext fun _ => same, ?_, congrArg view memory⟩, begun⟩
    simp only [keeping, filled_of_step cached known, if_true, size]
  next {first set st c st' w w'} known ran := by
    obtain ⟨found, w₁, picked, ran⟩ := exists_of_draw_bind ran
    obtain ⟨memory, yields⟩ := ranges.pick picked
    cases found with
    | none =>
      cases ran
      exact ⟨known, ⟨rfl, rfl, congrArg view memory⟩, fun cs during => by simpa using during⟩
    | some x =>
      cases ran
      exact ⟨known, ⟨rfl, rfl, congrArg view memory⟩, (yields x rfl).2⟩

variable (cached : cache.isCached)

theorem told_keeping :
    (rangesKeeping ranges cached : (child.keeping cache how).Ranges shown view).Told :=
  fun known => ⟨_, size_of_filled (filled_of_step cached known) _⟩

theorem positive_keeping :
    (rangesKeeping ranges cached : (child.keeping cache how).Ranges shown view).Positive := by
  intro first set st c st' k w w' known drawn size
  obtain ⟨found, w₁, picked, drawn⟩ := exists_of_draw_bind drawn
  cases found with
  | none => cases drawn
  | some x =>
    obtain rfl := Except.ok.inj ((size_of_filled (filled_of_step cached known) _).symm.trans size)
    exact ((ranges.pick picked).2 x rfl).1

variable {ranges cached}

theorem counted_keeping (short : ∀ items cs, can items cs → cs.length ≤ items.size) :
    (rangesKeeping ranges cached : (child.keeping cache how).Ranges shown view).Counted := by
  intro first now st k o cs known size can
  obtain rfl := Except.ok.inj ((size_of_filled (filled_of_step cached known) _).symm.trans size)
  exact short _ _ can

theorem pooled_keeping (pool : Array D → List C) (small : ∀ items, (pool items).length = items.size)
    (all : ∀ items cs, can items cs → cs ⊆ pool items) :
    (rangesKeeping ranges cached : (child.keeping cache how).Ranges shown view).Pooled := by
  intro first now st k known size
  obtain rfl := Except.ok.inj ((size_of_filled (filled_of_step cached known) _).symm.trans size)
  exact ⟨fun _ => pool st.items, fun _ => (small _).le, fun _ cs can => all _ cs can⟩

theorem listed_keeping (list : Array D → List C) (small : ∀ items, (list items).length = items.size)
    (all : ∀ items cs, can items cs → cs <+: list items) :
    (rangesKeeping ranges cached : (child.keeping cache how).Ranges shown view).Listed := by
  intro first now st k known size
  obtain rfl := Except.ok.inj ((size_of_filled (filled_of_step cached known) _).symm.trans size)
  exact ⟨fun _ => list st.items, fun _ => (small _).le, fun _ cs can => all _ cs can⟩

end Kept

/-! ### Orders -/

/-- What can be relied on in a selector of candidates: that as many candidates as its size says are
counted, or even listed in one order. -/
structure Ranges.Suits (ranges : sel.Ranges shown view) (counts lists : Prop) : Prop where
  told : ranges.Told
  positive : ranges.Positive
  pooled : ranges.Pooled
  counted : counts → ranges.Counted
  listed : lists → ranges.Listed

section Orders

variable {cache : CacheType}

theorem Ranges.Suits.of_listed {ranges : sel.Ranges shown view} (told : ranges.Told)
    (positive : ranges.Positive) (listed : ranges.Listed) (counts lists : Prop) :
    ranges.Suits counts lists :=
  ⟨told, positive, listed.pooled, fun _ => listed.counted, fun _ => listed⟩

theorem Ranges.Suits.mono {ranges : sel.Ranges shown view} {counts counts' lists lists' : Prop}
    (suits : ranges.Suits counts lists) (count : counts' → counts) (list : lists' → lists) :
    ranges.Suits counts' lists' :=
  ⟨suits.told, suits.positive, suits.pooled, fun given => suits.counted (count given),
    fun given => suits.listed (list given)⟩

variable (shown view) in
theorem suits_source (items : S → Array C) (isRandom : Bool) :
    ∃ ranges : (source items isRandom).Ranges shown view,
      ranges.Suits (isRandom = false) (isRandom = false) := by
  cases isRandom with
  | false => exact ⟨_, .of_listed (fun _ => ⟨_, rfl⟩) (positive_listed items) (listed_source items) _ _⟩
  | true => exact ⟨_, fun _ => ⟨_, rfl⟩, positive_drawn items, pooled_source items, by rintro ⟨⟩, by rintro ⟨⟩⟩

/-- Picks in the order of the list. -/
theorem Arrangement.Ranges.of_inOrder {how : Arrangement M S C C}
    (picks : ∀ items cursor, how.pick items cursor = pure items[cursor]?)
    (can : Array C → List C → Prop)
    (shuffle : ∀ {items items'} {w w' : World M}, how.shuffle items w = .ok (items', w') →
      w'.memory = w.memory ∧ items'.size = items.size ∧ can items' = can items)
    (begins : ∀ items n, can items (items.toList.take n)) :
    how.Ranges can fun items cursor cs => cs = items.toList.take cursor where
  can_of_during during := during ▸ begins _ _
  shuffle ran := by
    obtain ⟨memory, size, same⟩ := shuffle ran
    exact ⟨memory, size, same, rfl⟩
  pick {items cursor c w w'} ran := by
    rw [picks] at ran
    cases ran
    refine ⟨rfl, fun x found => ⟨Array.size_pos_of_mem (Array.mem_of_getElem? found), ?_⟩⟩
    rintro cs rfl
    rw [List.take_add_one, Array.getElem?_toList, found]
    rfl

/-- Picks of anything in the list. -/
theorem Arrangement.Ranges.of_members {how : Arrangement M S C D} (label : D → C)
    (shuffle : how.shuffle = pure)
    (picks : ∀ {items cursor c} {w w' : World M}, how.pick items cursor w = .ok (c, w') →
      w'.memory = w.memory ∧ ∀ x ∈ c, ∃ d ∈ items, label d = x) :
    how.Ranges (fun items cs => cs ⊆ items.toList.map label)
      fun items _ cs => cs ⊆ items.toList.map label where
  can_of_during during := during
  shuffle ran := by
    rw [shuffle] at ran
    cases ran
    exact ⟨rfl, rfl, rfl, List.nil_subset _⟩
  pick {items _ _ _ _} ran := by
    obtain ⟨memory, member⟩ := picks ran
    refine ⟨memory, fun x found => ?_⟩
    obtain ⟨d, there, rfl⟩ := member x found
    refine ⟨Array.size_pos_of_mem there, fun cs all => List.append_subset.2 ⟨all, ?_⟩⟩
    simpa using ⟨d, there, rfl⟩

/-- A list that is kept as it is, and picked from in its order. -/
theorem suits_inOrder {how : Arrangement M S C C} (cached : cache.isCached)
    (picks : ∀ items cursor, how.pick items cursor = pure items[cursor]?)
    (shuffle : how.shuffle = pure) (counts lists : Prop) :
    ∃ ranges : (child.keeping cache how).Ranges shown view, ranges.Suits counts lists := by
  refine ⟨rangesKeeping (.of_inOrder picks (fun items cs => cs <+: items.toList) ?_ ?_) cached,
    .of_listed (told_keeping _ _) (positive_keeping _ _)
      (listed_keeping Array.toList (fun _ => by simp) fun _ _ can => can) counts lists⟩
  · intro items items' w w' ran
    rw [shuffle] at ran
    cases ran
    exact ⟨rfl, rfl, rfl⟩
  · exact fun items n => List.take_prefix ..

variable (shown view) in
theorem suits_caching {isRandom : Bool} (made : child.caching cache isRandom = .ok sel) :
    ∃ ranges : sel.Ranges shown view, ranges.Suits (isRandom = false) (isRandom = false) := by
  obtain ⟨_, checked, made⟩ := andThen_eq_ok.1 made
  have cached := isCached_of_checkCacheable checked
  obtain rfl := Except.ok.inj made
  cases isRandom with
  | false => exact suits_inOrder cached (fun _ _ => rfl) rfl _ _
  | true =>
    refine ⟨rangesKeeping (.of_members id rfl ?_) cached, told_keeping _ _, positive_keeping _ _,
      pooled_keeping (fun items => items.toList.map id) (fun _ => by simp) fun _ _ can => can,
      by rintro ⟨⟩, by rintro ⟨⟩⟩
    intro items cursor c w w' (ran : (if items.isEmpty then pure none
      else do return items[← Draw.below items.size]?) w = _)
    split at ran
    · cases ran
      exact ⟨rfl, fun x found => by cases found⟩
    · obtain ⟨i, w₁, below, ran⟩ := exists_of_draw_bind ran
      cases ran
      exact ⟨(exists_of_generate below).2, fun x found => ⟨x, Array.mem_of_getElem? found, rfl⟩⟩

variable (shown view) in
theorem suits_shuffling (made : child.shuffling cache = .ok sel) :
    ∃ ranges : sel.Ranges shown view, ranges.Suits True False := by
  obtain ⟨_, checked, made⟩ := andThen_eq_ok.1 made
  have cached := isCached_of_checkCacheable checked
  obtain rfl := Except.ok.inj made
  refine ⟨rangesKeeping (.of_inOrder (fun _ _ => rfl)
    (fun items cs => ∃ L, L.Perm items.toList ∧ cs <+: L) ?_ ?_) cached, told_keeping _ _,
    positive_keeping _ _, pooled_keeping Array.toList (fun _ => by simp) ?_, fun _ => counted_keeping ?_, False.elim⟩
  · intro items items' w w' ran
    obtain ⟨shuffled, memory⟩ := exists_of_generate ran
    have perm := Random.Generator.perm_of_shuffle shuffled
    refine ⟨memory, perm.size_eq, funext fun cs => propext ⟨?_, ?_⟩⟩
    · rintro ⟨L, rearranged, sub⟩
      exact ⟨L, rearranged.trans (Array.perm_iff_toList_perm.1 perm), sub⟩
    · rintro ⟨L, rearranged, sub⟩
      exact ⟨L, rearranged.trans (Array.perm_iff_toList_perm.1 perm).symm, sub⟩
  · exact fun items n => ⟨_, .refl _, List.take_prefix ..⟩
  · rintro items cs ⟨L, perm, sub⟩
    exact fun c member => perm.subset (sub.subset member)
  · rintro items cs ⟨L, perm, sub⟩
    exact sub.length_le.trans (by simp [perm.length_eq])

variable (shown view) in
theorem suits_sorting {key : S → C → Except Fault Float} {direction : SortDirection}
    (made : child.sorting cache key direction = .ok sel) :
    ∃ ranges : sel.Ranges shown view, ranges.Suits True True := by
  obtain ⟨_, checked, made⟩ := andThen_eq_ok.1 made
  obtain rfl := Except.ok.inj made
  exact suits_inOrder (isCached_of_checkCacheable checked) (fun _ _ => rfl) rfl _ _

end Orders

/-! ## Fewer candidates -/

section Filtering

variable {k : Nat} (ranges : child.Ranges shown view) (accepts : S → C → Bool)

/-- The candidates that are refused belong to the pass of the child, too. -/
theorem Ranges.nextAccepted {limit : Option Nat} {rounds refused : Nat} {first : S}
    {set : Setting S} {st st' : child.State} {c : Option C} {w w' : World M}
    (known : ranges.Inv (.step first set.solution) st)
    (drawn : child.nextAccepted accepts set limit rounds refused st w = .ok ((c, st'), w')) :
    ranges.Inv (.step first set.solution) st' ∧
      Stays child ranges.can view set.solution st st' w.memory w'.memory ∧
      (∀ ds, ranges.During set.solution st (view w.memory) ds → ∃ more,
        ranges.During set.solution st' (view w.memory) (ds ++ more) ∧
          more.filter (accepts set.solution) = c.toList) ∧
      (ranges.Positive → c.isSome → ∀ k, child.size set.solution st = .ok k → 0 < k) := by
  induction rounds generalizing refused st w with
  | zero => cases drawn
  | succ rounds ih =>
    rw [Selector.nextAccepted] at drawn
    obtain ⟨⟨found, st₁⟩, w₁, ran, drawn⟩ := exists_of_draw_bind drawn
    obtain ⟨known₁, stays, during⟩ := ranges.next known ran
    cases found with
    | none =>
      cases drawn
      refine ⟨known₁, stays, fun ds before => ⟨[], during ds before, rfl⟩, fun _ found => ?_⟩
      cases found
    | some d =>
      dsimp only at drawn
      split at drawn
      · rename_i accepted
        cases drawn
        refine ⟨known₁, stays, fun ds before => ⟨[d], during ds before, ?_⟩, ?_⟩
        · exact List.filter_cons_of_pos accepted
        · exact fun positive _ k size => positive known ran size
      · rename_i refused
        have rest : [d].filter (accepts set.solution) = [] := List.filter_cons_of_neg refused
        split at drawn
        · cases drawn
          refine ⟨known₁, stays, fun ds before => ⟨[d], during ds before, rest⟩, fun _ found => ?_⟩
          cases found
        · obtain ⟨known₂, stays₂, during₂, some⟩ := ih known₁ drawn
          refine ⟨known₂, stays.trans stays₂, fun ds before => ?_, fun positive found k size => ?_⟩
          · obtain ⟨more, after, accepted⟩ := during₂ _ (stays.view ▸ during ds before)
            refine ⟨d :: more, ?_, ?_⟩
            · rw [stays.view, List.append_assoc] at after
              exact after
            · rw [List.filter_cons_of_neg refused, accepted]
          · exact some positive found k (stays.size.trans size)

theorem exists_of_next_filtering {set : Setting S} {st : child.State} {w : World M}
    {r : (Option C × child.State) × World M}
    (drawn : (child.filtering accepts).next set st w = .ok r) :
    ∃ limit, child.nextAccepted accepts set limit set.patience 0 st w = .ok r := by
  obtain ⟨⟨c, st'⟩, w'⟩ := r
  simp only [filtering] at drawn
  split at drawn
  · obtain ⟨size, w₁, sized, rest⟩ := exists_of_draw_bind drawn
    obtain ⟨most, w₂, counted, last⟩ := exists_of_draw_bind rest
    obtain ⟨-, rfl⟩ := lift_eq_ok.1 sized
    obtain ⟨-, rfl⟩ := lift_eq_ok.1 counted
    exact ⟨_, last⟩
  · exact ⟨_, drawn⟩

/-- The candidates that are accepted. -/
def rangesFiltering : (child.filtering accepts).Ranges shown view where
  Inv := ranges.Inv
  can s st o cs := ∃ ds, ranges.can s st o ds ∧ cs = ds.filter (accepts s)
  During s st o cs := ∃ ds, ranges.During s st o ds ∧ cs = ds.filter (accepts s)
  can_of_during := by
    rintro first now st o cs known ⟨ds, during, rfl⟩
    exact ⟨ds, ranges.can_of_during known during, rfl⟩
  sized := ranges.sized
  start := ranges.start
  handle := ranges.handle
  restart known ran := by
    obtain ⟨known, stays, during⟩ := ranges.restart known ran
    exact ⟨known, ⟨by rw [stays.can], stays.size, stays.view⟩, [], during, rfl⟩
  next known drawn := by
    obtain ⟨limit, drawn⟩ := exists_of_next_filtering accepts drawn
    obtain ⟨known, stays, during, -⟩ := ranges.nextAccepted accepts known drawn
    refine ⟨known, ⟨by rw [stays.can], stays.size, stays.view⟩, ?_⟩
    rintro cs ⟨ds, before, rfl⟩
    obtain ⟨more, after, accepted⟩ := during ds before
    exact ⟨ds ++ more, after, by rw [List.filter_append, accepted]⟩

variable {ranges} {counts lists : Prop}

theorem suits_filtering (suits : ranges.Suits counts lists) :
    (rangesFiltering ranges accepts).Suits counts lists where
  told := suits.told
  positive {first set st c st' k w w'} known drawn size := by
    obtain ⟨limit, drawn⟩ := exists_of_next_filtering accepts drawn
    exact (ranges.nextAccepted accepts known drawn).2.2.2 suits.positive rfl k size
  pooled {first now st k} known size := by
    obtain ⟨pool, small, all⟩ := suits.pooled known size
    refine ⟨pool, small, ?_⟩
    rintro o cs ⟨ds, can, rfl⟩
    exact fun c member => all o ds can (List.mem_filter.1 member).1
  counted given {first now st k o cs} known size can := by
    obtain ⟨ds, can, rfl⟩ := can
    exact (List.length_filter_le ..).trans (suits.counted given known size can)
  listed given {first now st k} known size := by
    obtain ⟨list, short, all⟩ := suits.listed given known size
    refine ⟨fun o => (list o).filter (accepts now), fun o => ?_, ?_⟩
    · exact (List.length_filter_le ..).trans (short o)
    · rintro o cs ⟨ds, can, rfl⟩
      exact (all o ds can).filter _

end Filtering

/-- What can be relied on in a selector of candidates under a limit. -/
structure Ranges.Fits (ranges : sel.Ranges shown view) (counts pools : Prop) : Prop where
  told : ranges.Told
  positive : ranges.Positive
  bounded : ranges.Bounded
  counted : counts → ranges.Counted
  pooled : pools → ranges.Pooled

theorem Ranges.Fits.mono {ranges : sel.Ranges shown view} {counts counts' pools pools' : Prop}
    (fits : ranges.Fits counts pools) (count : counts' → counts) (pool : pools' → pools) :
    ranges.Fits counts' pools' :=
  ⟨fits.told, fits.positive, fits.bounded, fun given => fits.counted (count given),
    fun given => fits.pooled (pool given)⟩

theorem Ranges.Suits.fits {ranges : sel.Ranges shown view} {counts lists : Prop}
    (suits : ranges.Suits counts lists) (pools : Prop) : ranges.Fits counts pools :=
  ⟨suits.told, suits.positive, Pooled.bounded suits.pooled, suits.counted, fun _ => suits.pooled⟩

section Limited

variable (ranges : child.Ranges shown view) (limit : Nat)

theorem exists_of_next_limited {set : Setting S} {st st' : child.State × Nat} {c : Option C}
    {w w' : World M} (drawn : (child.limited limit).next set st w = .ok ((c, st'), w')) :
    c = none ∧ st' = st ∧ w' = w ∨ st.2 < limit ∧
      child.next set st.1 w = .ok ((c, st'.1), w') ∧ st'.2 = st.2 + c.toList.length := by
  simp only [limited] at drawn
  split at drawn
  · cases drawn
    exact .inl ⟨rfl, rfl, rfl⟩
  · rename_i below
    obtain ⟨⟨found, inner⟩, w₁, ran, drawn⟩ := exists_of_draw_bind drawn
    cases drawn
    exact .inr ⟨Nat.lt_of_not_le below, ran, by cases found <;> rfl⟩

/-- The first candidates. -/
def rangesLimited : (child.limited limit).Ranges shown view where
  Inv p st := ranges.Inv p st.1
  can s st o cs := ranges.can s st.1 o cs ∧ cs.length ≤ limit
  During s st o cs := ranges.During s st.1 o cs ∧ cs.length ≤ st.2 ∧ st.2 ≤ limit
  can_of_during known during := ⟨ranges.can_of_during known during.1, during.2.1.trans during.2.2⟩
  sized known := (ranges.sized known).bind fun _ _ => .ok _
  start := ranges.start
  handle known due shows ran := by
    obtain ⟨inner, w₁, handled, ran⟩ := exists_of_draw_bind ran
    cases ran
    exact ranges.handle known due shows handled
  restart known ran := by
    obtain ⟨inner, w₁, restarted, ran⟩ := exists_of_draw_bind ran
    cases ran
    obtain ⟨known, stays, during⟩ := ranges.restart known restarted
    exact ⟨known, ⟨by rw [stays.can], by simp only [limited, stays.size], stays.view⟩, during,
      le_rfl, Nat.zero_le _⟩
  next {_ _ st c _ _ _} known drawn := by
    obtain ⟨rfl, rfl, rfl⟩ | ⟨below, ran, count⟩ := exists_of_next_limited limit drawn
    · exact ⟨known, ⟨rfl, rfl, rfl⟩, fun cs during => by simpa using during⟩
    · obtain ⟨known, stays, during⟩ := ranges.next known ran
      refine ⟨known, ⟨by rw [stays.can], by simp only [limited, stays.size], stays.view⟩, ?_⟩
      rintro cs ⟨before, few, -⟩
      refine ⟨during cs before, ?_, ?_⟩
      · rw [List.length_append, count]
        omega
      · have one : c.toList.length ≤ 1 := by cases c <;> simp
        omega

variable {ranges} {counts lists : Prop}

theorem Within.min {k : Nat} {cs : List C} (within : Within k cs) (short : cs.length ≤ limit) :
    Within (min k limit) cs := by
  obtain le | le := Nat.le_total k limit
  · rwa [Nat.min_eq_left le]
  · rw [Nat.min_eq_right le]
    exact .of_length short

theorem exists_of_size_limited {s : S} {st : child.State × Nat} {k : Nat}
    (size : (child.limited limit).size s st = .ok k) :
    ∃ n, child.size s st.1 = .ok n ∧ k = min n limit := by
  obtain ⟨n, counted, size⟩ := PlanSearch.andThen_eq_ok.1 size
  exact ⟨n, counted, (Except.ok.inj size).symm⟩

/-- What is cut off may differ from pass to pass, unless there is one list. -/
theorem fits_limited (suits : ranges.Suits counts lists) :
    (rangesLimited ranges limit).Fits counts lists where
  told known := by
    obtain ⟨k, size⟩ := suits.told known
    exact ⟨min k limit, PlanSearch.andThen_eq_ok.2 ⟨k, size, rfl⟩⟩
  positive known drawn size := by
    obtain ⟨n, inner, rfl⟩ := exists_of_size_limited limit size
    obtain ⟨⟨⟩, -⟩ | ⟨below, ran, -⟩ := exists_of_next_limited limit drawn
    exact Nat.lt_min.2 ⟨suits.positive known ran inner, Nat.zero_lt_of_lt below⟩
  bounded known size can := by
    obtain ⟨n, inner, rfl⟩ := exists_of_size_limited limit size
    exact (Ranges.Pooled.bounded suits.pooled known inner can.1).min limit can.2
  counted given {first now st k o cs} known size can := by
    obtain ⟨n, inner, rfl⟩ := exists_of_size_limited limit size
    exact Nat.le_min.2 ⟨suits.counted given known inner can.1, can.2⟩
  pooled given {first now st k} known size := by
    obtain ⟨n, inner, rfl⟩ := exists_of_size_limited limit size
    obtain ⟨list, short, all⟩ := suits.listed given known inner
    refine ⟨fun o => (list o).take limit, fun o => ?_, fun o cs can => ?_⟩
    · have := short o
      rw [List.length_take]
      omega
    · have cut := (all o cs can.1).take limit
      rw [List.take_of_length_le can.2] at cut
      exact cut.subset

end Limited

/-! ## Candidates that are shared -/

section Recording

variable (ranges : child.Ranges shown view) {recorder : Recorder M C}
variable (apart : ∀ c m, view (recorder.record c m) = view m)

/-- A candidate may be remembered where the selector does not look at it itself. -/
def rangesRecording : (child.recording recorder).Ranges shown view where
  Inv := ranges.Inv
  can := ranges.can
  During := ranges.During
  can_of_during := ranges.can_of_during
  sized := ranges.sized
  start := ranges.start
  handle {_ _ hook _ _ _ _ _} known due shows ran := by
    obtain ⟨inner, w₁, handled, ran⟩ := exists_of_draw_bind ran
    have known := ranges.handle known due shows handled
    cases hook <;> cases ran <;> exact known
  restart {_ _ _ _ w _} known ran := by
    obtain ⟨_, w₁, emptied, restarted⟩ := exists_of_draw_bind ran
    cases emptied
    obtain ⟨known, stays, during⟩ := ranges.restart known restarted
    have same : view (recorder.record none w.memory) = view w.memory := apart none w.memory
    exact ⟨known, ⟨stays.can, stays.size, stays.view.trans same⟩, same ▸ during⟩
  next known drawn := by
    obtain ⟨⟨found, inner⟩, w₁, ran, drawn⟩ := exists_of_draw_bind drawn
    obtain ⟨known, stays, during⟩ := ranges.next known ran
    cases found with
    | none =>
      cases drawn
      exact ⟨known, ⟨stays.can, stays.size, stays.view⟩, during⟩
    | some x =>
      cases drawn
      exact ⟨known, ⟨stays.can, stays.size, (apart _ _).trans stays.view⟩, during⟩

variable {ranges} {counts pools : Prop}

theorem fits_recording (fits : ranges.Fits counts pools) :
    (rangesRecording ranges apart).Fits counts pools where
  told := fits.told
  positive known drawn size := by
    obtain ⟨⟨found, inner⟩, w₁, ran, drawn⟩ := exists_of_draw_bind drawn
    cases found with
    | none => cases drawn
    | some x => exact fits.positive known ran size
  bounded := fits.bounded
  counted := fits.counted
  pooled := fits.pooled

end Recording

section Replaying

variable (recorder : Recorder M C) (Held : O → Option C → Prop)
variable (seen : ∀ m, Held (view m) (recorder.recorded m))

/-- The candidate that is remembered, as far as that is seen of the memory. -/
def rangesReplaying : (replaying recorder : Selector M S C).Ranges shown view where
  Inv _ _ := True
  can _ _ o cs := ∃ held, Held o held ∧ cs <+: held.toList
  During _ (replayed : Bool) o cs :=
    (∃ held, Held o held ∧ cs <+: held.toList) ∧ (replayed = false → cs = [])
  can_of_during _ during := during.1
  sized _ := .ok _
  start := trivial
  handle _ _ _ _ := trivial
  restart {_ _ _ _ w _} _ ran := by
    cases ran
    exact ⟨trivial, ⟨rfl, rfl, rfl⟩, ⟨_, seen w.memory, List.nil_prefix⟩, fun _ => rfl⟩
  next {_ _ replayed _ _ w _} _ drawn := by
    cases replayed with
    | true =>
      cases drawn
      exact ⟨trivial, ⟨rfl, rfl, rfl⟩, fun cs during => by simpa using during⟩
    | false =>
      cases drawn
      refine ⟨trivial, ⟨rfl, rfl, rfl⟩, fun cs during => ?_⟩
      obtain rfl := during.2 rfl
      refine ⟨⟨_, seen w.memory, List.prefix_rfl⟩, fun none => ?_⟩
      rw [Option.isSome_eq_false_iff, Option.isNone_iff_eq_none] at none
      rw [none]
      rfl

theorem counted_replaying :
    (rangesReplaying recorder Held seen : Ranges _ shown view).Counted := by
  rintro first now st k o cs - ⟨⟩ ⟨held, -, sub⟩
  exact sub.length_le.trans (by cases held <;> simp)

/-- Lists that depend on what is held depend on what is seen, if that tells what is held. -/
theorem exists_lists {X : Type} {Held : O → X → Prop}
    (tells : ∀ o x y, Held o x → Held o y → x = y) {k : Nat} (f : X → List C)
    (short : ∀ x, (f x).length ≤ k) :
    ∃ list : O → List C, (∀ o, (list o).length ≤ k) ∧ ∀ o x, Held o x → list o = f x := by
  have one (o : O) : ∃ list : List C, list.length ≤ k ∧ ∀ x, Held o x → list = f x := by
    by_cases some : ∃ x, Held o x
    · obtain ⟨x, held⟩ := some
      exact ⟨f x, short x, fun y held' => congrArg f (tells o x y held held')⟩
    · exact ⟨[], Nat.zero_le k, fun x held => absurd ⟨x, held⟩ some⟩
  choose list small same using one
  exact ⟨list, small, same⟩

/-- Passes that see the same repeat the same candidate, if that is all there is to it. -/
theorem fits_replaying : (rangesReplaying recorder Held seen : Ranges _ shown view).Fits True
    (∀ o x y, Held o x → Held o y → x = y) where
  told _ := ⟨_, rfl⟩
  positive := by
    rintro first set st c st' k w w' - - ⟨⟩
    exact Nat.one_pos
  bounded := Ranges.Counted.bounded (counted_replaying recorder Held seen)
  counted _ := counted_replaying recorder Held seen
  pooled tells := by
    rintro first now st k - ⟨⟩
    obtain ⟨pool, small, same⟩ := exists_lists (k := 1) tells Option.toList fun held => by
      cases held <;> simp
    refine ⟨pool, small, ?_⟩
    rintro o cs ⟨held, given, sub⟩
    rw [same o held given]
    exact sub.subset

end Replaying

end PlanSearch.Selector
