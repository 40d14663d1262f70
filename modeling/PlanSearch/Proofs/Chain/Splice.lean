import Mathlib.Data.List.Nodup
import Mathlib.Tactic.Tauto
import PlanSearch.Chain.SubChain
import PlanSearch.Proofs.Chain.Paths

/-!
# Taking runs out and putting them in

A relocation is described on the predecessor relation alone, in two stages. A run is withdrawn: its
entities are placed after nothing, and what followed it moves up. A block is inserted: its entities
are placed after the target in the order of the block, and what followed the target is placed after
the block. The stages are inverse to each other, and on the lists of the chains they delete the run
and insert the block.
-/

namespace PlanSearch

namespace SubChain

variable {run : SubChain} {reversing : Bool} {h : Handle}

/-- The run in its order or in the opposite one. -/
def oriented (run : SubChain) (reversing : Bool) : SubChain :=
  if reversing then run.reversed else run

theorem exists_eq_cons (run : SubChain) :
    ∃ b rest, run = ⟨b :: rest, List.cons_ne_nil b rest⟩ := by
  obtain ⟨entities, ne⟩ := run
  obtain ⟨b, rest, rfl⟩ := List.exists_cons_of_ne_nil ne
  exact ⟨b, rest, rfl⟩

theorem first_mem (run : SubChain) : run.first ∈ run.entities := List.head_mem _

theorem last_mem (run : SubChain) : run.last ∈ run.entities := List.getLast_mem _

@[simp] theorem mem_oriented : h ∈ (run.oriented reversing).entities ↔ h ∈ run.entities := by
  cases reversing <;> simp [oriented, reversed]

@[simp] theorem oriented_oriented : (run.oriented reversing).oriented reversing = run := by
  cases reversing <;> simp [oriented]

@[simp] theorem nodup_oriented :
    (run.oriented reversing).entities.Nodup ↔ run.entities.Nodup := by
  cases reversing <;> simp [oriented, reversed]

@[simp] theorem length_oriented : (run.oriented reversing).length = run.length := by
  cases reversing <;> simp [oriented, reversed, length]

@[simp] theorem first_reversed (run : SubChain) : run.reversed.first = run.last := by
  simp [first, last, reversed]

@[simp] theorem last_reversed (run : SubChain) : run.reversed.last = run.first := by
  simp [first, last, reversed]

theorem length_eq_one (nodup : run.entities.Nodup) (all : ∀ h ∈ run.entities, h = run.first) :
    run.length = 1 := by
  obtain ⟨b, rest, rfl⟩ := run.exists_eq_cons
  cases rest with
  | nil => rfl
  | cons c rest =>
    have same : c = b := all c (by simp)
    simp [same] at nodup

theorem length_of_oriented (nodup : run.entities.Nodup)
    (all : ∀ h ∈ run.entities, h = (run.oriented reversing).first) : run.length = 1 := by
  rw [← length_oriented]
  exact length_eq_one (nodup_oriented.2 nodup) fun h member => all h (mem_oriented.1 member)

theorem exists_cons_cons (several : run.length ≠ 1) :
    ∃ a b rest, run.entities = a :: b :: rest := by
  obtain ⟨a, rest, rfl⟩ := run.exists_eq_cons
  cases rest with
  | nil => exact absurd rfl several
  | cons b rest => exact ⟨a, b, rest, rfl⟩

theorem length_eq_one_of_first_eq_last (nodup : run.entities.Nodup) (same : run.first = run.last) :
    run.length = 1 := by
  obtain ⟨b, rest, rfl⟩ := run.exists_eq_cons
  cases rest with
  | nil => rfl
  | cons c rest =>
    have inside : b ∈ c :: rest := by
      have last : b = (c :: rest).getLast (List.cons_ne_nil c rest) := same
      rw [last]
      exact List.getLast_mem _
    exact absurd inside (List.nodup_cons.1 nodup).1

theorem oriented_of_length (single : run.length = 1) : run.oriented reversing = run := by
  obtain ⟨entities, ne⟩ := run
  obtain ⟨h, rfl⟩ := List.length_eq_one_iff.1 single
  cases reversing <;> rfl

theorem eq_first_of_length (single : run.length = 1) (member : h ∈ run.entities) :
    h = (run.oriented reversing).first := by
  rw [oriented_of_length single]
  obtain ⟨entities, ne⟩ := run
  obtain ⟨b, rfl⟩ := List.length_eq_one_iff.1 single
  exact List.mem_singleton.1 member

end SubChain

namespace ChainGraph

variable {predecessor w : Handle → Option Handle} {run block : SubChain}
variable {target start : Option Handle} {h x b d : Handle} {l rest : List Handle}

/-- At most one entity is placed after each element. -/
def Unique (predecessor : Handle → Option Handle) : Prop :=
  ∀ h₁ h₂ before, predecessor h₁ = some before → predecessor h₂ = some before → h₁ = h₂

/-! ## Links inside a block -/

/-- What an element of a list is placed after when the list is placed after `start`. -/
def predecessorIn (start : Option Handle) : List Handle → Handle → Option Handle
  | [], _ => none
  | b :: rest, h => if h = b then start else predecessorIn (some b) rest h

theorem predecessorIn_cons_self : predecessorIn start (b :: rest) b = start := if_pos rfl

theorem predecessorIn_cons_of_ne (other : h ≠ b) :
    predecessorIn start (b :: rest) h = predecessorIn (some b) rest h := if_neg other

theorem predecessorIn_of_path (path : Path predecessor (b :: rest)) (member : h ∈ b :: rest) :
    predecessorIn (predecessor b) (b :: rest) h = predecessor h := by
  induction rest generalizing b with
  | nil =>
    rw [List.mem_singleton.1 member]
    exact predecessorIn_cons_self
  | cons c rest ih =>
    obtain ⟨link, onwards⟩ := List.isChain_cons_cons.1 path
    by_cases self : h = b
    · rw [self, predecessorIn_cons_self]
    · rw [predecessorIn_cons_of_ne self, ← link]
      exact ih onwards (List.mem_of_ne_of_mem self member)

theorem path_of_predecessorIn (nodup : (b :: rest).Nodup)
    (agree : ∀ h ∈ b :: rest, predecessor h = predecessorIn start (b :: rest) h) :
    Path predecessor (b :: rest) := by
  induction rest generalizing b start with
  | nil => exact .singleton b
  | cons c rest ih =>
    obtain ⟨fresh, nodup⟩ := List.nodup_cons.1 nodup
    have inner : ∀ h ∈ c :: rest, predecessor h = predecessorIn (some b) (c :: rest) h := by
      intro h member
      rw [agree h (List.mem_cons_of_mem b member), predecessorIn_cons_of_ne]
      rintro rfl
      exact fresh member
    refine .cons_cons ?_ (ih nodup inner)
    rw [inner c (by simp), predecessorIn_cons_self]

theorem predecessorIn_eq_some (link : predecessorIn start l h = some x) :
    start = some x ∨ x ∈ l := by
  induction l generalizing start with
  | nil => cases link
  | cons b rest ih =>
    unfold predecessorIn at link
    split at link
    · exact .inl link
    · rcases ih link with inner | inner
      · exact .inr (by simp [Option.some.inj inner])
      · exact .inr (List.mem_cons_of_mem b inner)

theorem isSome_predecessorIn (member : h ∈ l) : (predecessorIn (some x) l h).isSome := by
  induction l generalizing x with
  | nil => cases member
  | cons b rest ih =>
    by_cases self : h = b
    · rw [self, predecessorIn_cons_self]
      rfl
    · rw [predecessorIn_cons_of_ne self]
      exact ih (List.mem_of_ne_of_mem self member)

/-- Nothing in the block is placed after its last element. -/
theorem predecessorIn_ne_getLast (nodup : (b :: rest).Nodup)
    (apart : ∀ d, start = some d → d ∉ b :: rest) :
    predecessorIn start (b :: rest) h ≠
      some ((b :: rest).getLast (List.cons_ne_nil b rest)) := by
  induction rest generalizing b start with
  | nil =>
    intro link
    unfold predecessorIn at link
    split at link
    · exact apart _ link (by simp)
    · cases link
  | cons c rest ih =>
    obtain ⟨fresh, nodup⟩ := List.nodup_cons.1 nodup
    intro link
    rw [List.getLast_cons (List.cons_ne_nil c rest)] at link
    by_cases self : h = b
    · rw [self, predecessorIn_cons_self] at link
      exact apart _ link (List.mem_cons_of_mem b (List.getLast_mem _))
    · rw [predecessorIn_cons_of_ne self] at link
      refine ih nodup ?_ link
      rintro d ⟨⟩
      exact fresh

theorem predecessorIn_injective (nodup : l.Nodup) (apart : ∀ d, start = some d → d ∉ l) :
    Unique (predecessorIn start l) := by
  induction l generalizing start with
  | nil =>
    intro h₁ h₂ x link₁
    cases link₁
  | cons b rest ih =>
    obtain ⟨fresh, nodup⟩ := List.nodup_cons.1 nodup
    have inner : Unique (predecessorIn (some b) rest) := ih nodup (by rintro d ⟨⟩; exact fresh)
    -- The head alone is placed after the start, which is not in the list.
    have head {h x : Handle} (link : predecessorIn start (b :: rest) h = some x)
        (first : start = some x) : h = b := by
      by_contra other
      rw [predecessorIn_cons_of_ne other] at link
      rcases predecessorIn_eq_some link with here | here
      · exact apart x first (by simp [Option.some.inj here])
      · exact apart x first (List.mem_cons_of_mem b here)
    intro h₁ h₂ x link₁ link₂
    by_cases self₁ : h₁ = b
    · rw [self₁, predecessorIn_cons_self] at link₁
      rw [self₁, head link₂ link₁]
    by_cases self₂ : h₂ = b
    · rw [self₂, predecessorIn_cons_self] at link₂
      exact absurd (head link₁ link₂) self₁
    · rw [predecessorIn_cons_of_ne self₁] at link₁
      rw [predecessorIn_cons_of_ne self₂] at link₂
      exact inner h₁ h₂ x link₁ link₂

theorem predecessorIn_first : predecessorIn start block.entities block.first = start := by
  obtain ⟨b, rest, rfl⟩ := block.exists_eq_cons
  exact predecessorIn_cons_self

/-- In a block behind nothing only the first element is placed after nothing. -/
theorem predecessorIn_eq_none (member : h ∈ block.entities) :
    predecessorIn none block.entities h = none ↔ h = block.first := by
  constructor
  · intro free
    obtain ⟨b, rest, rfl⟩ := block.exists_eq_cons
    by_contra other
    have inner := isSome_predecessorIn (x := b) (List.mem_of_ne_of_mem other member)
    have skipped : predecessorIn none (b :: rest) h = predecessorIn (some b) rest h :=
      predecessorIn_cons_of_ne other
    rw [← skipped, free] at inner
    cases inner
  · rintro rfl
    exact predecessorIn_first

theorem predecessorIn_ne_last (nodup : block.entities.Nodup)
    (apart : ∀ d, start = some d → d ∉ block.entities) :
    predecessorIn start block.entities h ≠ some block.last := by
  obtain ⟨b, rest, rfl⟩ := block.exists_eq_cons
  exact predecessorIn_ne_getLast nodup apart

theorem path_of_agree (nodup : block.entities.Nodup)
    (agree : ∀ h ∈ block.entities, predecessor h = predecessorIn start block.entities h) :
    Path predecessor block.entities := by
  obtain ⟨b, rest, rfl⟩ := block.exists_eq_cons
  exact path_of_predecessorIn nodup agree

/-! ## The two stages -/

/-- What is placed after what when a run has been taken out. -/
def withdrawn (predecessor : Handle → Option Handle) (run : SubChain) (h : Handle) :
    Option Handle :=
  if h ∈ run.entities then none
  else if predecessor h = some run.last then predecessor run.first
  else predecessor h

/-- What is placed after what when a block has been put behind the target. -/
def inserted (predecessor : Handle → Option Handle) (target : Option Handle) (block : SubChain)
    (h : Handle) : Option Handle :=
  if h ∈ block.entities then predecessorIn target block.entities h
  else if target.isSome ∧ predecessor h = target then some block.last
  else predecessor h

/-- The run is a path without a cycle. -/
structure Liftable (predecessor : Handle → Option Handle) (run : SubChain) : Prop where
  contiguous : Path predecessor run.entities
  nodup : run.entities.Nodup
  outside : ∀ p, predecessor run.first = some p → p ∉ run.entities

/-- The run is a path without a cycle, and something follows it only if it has a place. -/
structure Withdrawable (predecessor : Handle → Option Handle) (run : SubChain) : Prop
    extends Liftable predecessor run where
  placed : ∀ h, predecessor h = some run.last → (predecessor run.first).isSome

/-- No link touches the block. -/
def Apart (predecessor : Handle → Option Handle) (block : SubChain) : Prop :=
  ∀ h x, predecessor h = some x → h ∉ block.entities ∧ x ∉ block.entities

theorem exists_next (path : Path predecessor (b :: rest)) (member : x ∈ b :: rest)
    (inner : x ≠ (b :: rest).getLast (List.cons_ne_nil b rest)) :
    ∃ y ∈ b :: rest, predecessor y = some x := by
  induction rest generalizing b with
  | nil => exact absurd (List.mem_singleton.1 member) inner
  | cons c rest ih =>
    obtain ⟨link, onwards⟩ := List.isChain_cons_cons.1 path
    rw [List.getLast_cons (List.cons_ne_nil c rest)] at inner
    rcases List.mem_cons.1 member with rfl | later
    · exact ⟨c, by simp, link⟩
    · obtain ⟨y, here, link⟩ := ih onwards later inner
      exact ⟨y, List.mem_cons_of_mem b here, link⟩

namespace Liftable

theorem predecessorIn_eq (ready : Liftable predecessor run) (member : h ∈ run.entities) :
    predecessorIn (predecessor run.first) run.entities h = predecessor h := by
  obtain ⟨b, rest, rfl⟩ := run.exists_eq_cons
  exact predecessorIn_of_path ready.contiguous member

/-- What is placed after an entity of the run is in the run, unless the entity is the last. -/
theorem mem_of_link (ready : Liftable predecessor run) (unique : Unique predecessor)
    (member : x ∈ run.entities) (inner : x ≠ run.last) (link : predecessor h = some x) :
    h ∈ run.entities := by
  obtain ⟨b, rest, rfl⟩ := run.exists_eq_cons
  obtain ⟨y, here, next⟩ := exists_next ready.contiguous member inner
  rwa [unique h y x link next]

/-- What follows the last entity of the run is not in the run. -/
theorem notMem_of_link_last (ready : Liftable predecessor run)
    (link : predecessor h = some run.last) : h ∉ run.entities := by
  intro member
  rw [← ready.predecessorIn_eq member] at link
  exact predecessorIn_ne_last ready.nodup ready.outside link

theorem apart_withdrawn (ready : Liftable predecessor run) (unique : Unique predecessor) :
    Apart (withdrawn predecessor run) run := by
  intro h x link
  unfold withdrawn at link
  split at link
  · cases link
  rename_i outside
  refine ⟨outside, ?_⟩
  split at link
  · exact ready.outside x link
  · rename_i other
    intro member
    refine outside (ready.mem_of_link unique member ?_ link)
    rintro rfl
    exact other link

end Liftable

theorem unique_withdrawn (unique : Unique predecessor) :
    Unique (withdrawn predecessor run) := by
  -- What moves up takes the place that the first entity of the run had.
  have moved {h₁ h₂ before : Handle} (link : predecessor h₁ = some run.last)
      (up : predecessor run.first = some before) (outside : h₂ ∉ run.entities)
      (other : (if predecessor h₂ = some run.last then predecessor run.first
        else predecessor h₂) = some before) : h₁ = h₂ := by
    split at other
    · rename_i same
      exact unique h₁ h₂ _ link same
    · rw [unique h₂ run.first before other up] at outside
      exact absurd run.first_mem outside
  intro h₁ h₂ before link₁ link₂
  unfold withdrawn at link₁ link₂
  split at link₁
  · cases link₁
  rename_i outside₁
  split at link₂
  · cases link₂
  rename_i outside₂
  by_cases last₁ : predecessor h₁ = some run.last
  · rw [if_pos last₁] at link₁
    exact moved last₁ link₁ outside₂ link₂
  by_cases last₂ : predecessor h₂ = some run.last
  · rw [if_pos last₂] at link₂
    exact (moved last₂ link₂ outside₁ link₁).symm
  · rw [if_neg last₁] at link₁
    rw [if_neg last₂] at link₂
    exact unique h₁ h₂ before link₁ link₂

theorem unique_inserted (apart : Apart predecessor block) (unique : Unique predecessor)
    (nodup : block.entities.Nodup) (away : ∀ d, target = some d → d ∉ block.entities) :
    Unique (inserted predecessor target block) := by
  -- An entity of the block and another one are never placed after the same element.
  have crossed {h₁ h₂ x : Handle} (inside : predecessorIn target block.entities h₁ = some x)
      (link : (if target.isSome ∧ predecessor h₂ = target then some block.last
        else predecessor h₂) = some x) : False := by
    split at link
    · rw [← link] at inside
      exact predecessorIn_ne_last nodup away inside
    · rename_i other
      rcases predecessorIn_eq_some inside with here | here
      · exact other ⟨by simp [here], link.trans here.symm⟩
      · exact (apart h₂ x link).2 here
  intro h₁ h₂ x link₁ link₂
  unfold inserted at link₁ link₂
  split at link₁ <;> split at link₂
  · exact predecessorIn_injective nodup away h₁ h₂ x link₁ link₂
  · exact (crossed link₁ link₂).elim
  · exact (crossed link₂ link₁).elim
  · split at link₁ <;> split at link₂
    · rename_i there₁ there₂
      obtain ⟨d, isTarget⟩ := Option.isSome_iff_exists.1 there₁.1
      rw [isTarget] at there₁ there₂
      exact unique h₁ h₂ d there₁.2 there₂.2
    · rw [← link₁] at link₂
      exact absurd block.last_mem (apart h₂ _ link₂).2
    · rw [← link₂] at link₁
      exact absurd block.last_mem (apart h₁ _ link₁).2
    · exact unique h₁ h₂ x link₁ link₂

/-- Taking out what was put in leads back. -/
theorem withdrawn_inserted (apart : Apart predecessor block) :
    withdrawn (inserted predecessor target block) block = predecessor := by
  funext h
  unfold withdrawn
  split
  · rename_i member
    cases link : predecessor h with
    | none => rfl
    | some x => exact absurd member (apart h x link).1
  · rename_i outside
    have first : inserted predecessor target block block.first = target := by
      rw [inserted, if_pos block.first_mem, predecessorIn_first]
    rw [first, inserted, if_neg outside]
    by_cases there : target.isSome ∧ predecessor h = target
    · rw [if_pos there, if_pos rfl, there.2]
    · rw [if_neg there, if_neg]
      intro link
      exact (apart h _ link).2 block.last_mem

/-- Putting a run back where it was taken from restores every link, except that nothing is put back
behind a run that had no place. -/
theorem Liftable.inserted_withdrawn (ready : Liftable predecessor run)
    (unique : Unique predecessor) (h : Handle) :
    inserted (withdrawn predecessor run) (predecessor run.first) run h = predecessor h ∨
      inserted (withdrawn predecessor run) (predecessor run.first) run h = none ∧
        predecessor h = some run.last ∧ predecessor run.first = none := by
  unfold inserted
  split
  · rename_i member
    exact .inl (ready.predecessorIn_eq member)
  · rename_i outside
    by_cases follows : predecessor h = some run.last
    · have up : withdrawn predecessor run h = predecessor run.first := by
        rw [withdrawn, if_neg outside, if_pos follows]
      cases place : predecessor run.first with
      | none => exact .inr ⟨by rw [if_neg (by simp), up, place], follows, rfl⟩
      | some p => exact .inl (by rw [if_pos ⟨rfl, up.trans place⟩, follows])
    · have same : withdrawn predecessor run h = predecessor h := by
        rw [withdrawn, if_neg outside, if_neg follows]
      rw [same, if_neg]
      · exact .inl rfl
      · rintro ⟨placed, there⟩
        obtain ⟨p, isPlace⟩ := Option.isSome_iff_exists.1 placed
        rw [unique h run.first p (there.trans isPlace) isPlace] at outside
        exact outside run.first_mem

/-- Putting a run back where it was taken from leads back. -/
theorem Withdrawable.inserted_withdrawn (ready : Withdrawable predecessor run)
    (unique : Unique predecessor) :
    inserted (withdrawn predecessor run) (predecessor run.first) run = predecessor := by
  funext h
  rcases ready.toLiftable.inserted_withdrawn unique h with restored | ⟨-, follows, free⟩
  · exact restored
  · have placed := ready.placed h follows
    rw [free] at placed
    cases placed

/-! ## Lists of chains -/

/-- The list with a block put behind one of its elements. -/
def insertAfter (d : Handle) (block : List Handle) : List Handle → List Handle
  | [] => []
  | x :: rest => x :: if x = d then block ++ rest else insertAfter d block rest

/-- The list without a run, and with the run behind the target in the wanted order if the target is
in the list. -/
def respliced (run : SubChain) (target : Option Handle) (reversing : Bool) (l : List Handle) :
    List Handle :=
  let others := l.filter (· ∉ run.entities)
  match target with
  | none => others
  | some d => insertAfter d (run.oriented reversing).entities others

theorem insertAfter_of_notMem {block : List Handle} (absent : d ∉ l) :
    insertAfter d block l = l := by
  induction l with
  | nil => rfl
  | cons x rest ih =>
    rw [List.mem_cons, not_or] at absent
    rw [insertAfter, if_neg (Ne.symm absent.1), ih absent.2]

theorem insertAfter_append {block front back : List Handle} (absent : d ∉ front) :
    insertAfter d block (front ++ d :: back) = front ++ d :: (block ++ back) := by
  induction front with
  | nil => simp [insertAfter]
  | cons x rest ih =>
    rw [List.mem_cons, not_or] at absent
    rw [List.cons_append, insertAfter, if_neg (Ne.symm absent.1), ih absent.2, List.cons_append]

theorem mem_insertAfter {block : List Handle} :
    h ∈ insertAfter d block l ↔ h ∈ l ∨ d ∈ l ∧ h ∈ block := by
  induction l with
  | nil => simp [insertAfter]
  | cons x rest ih =>
    by_cases here : x = d
    · rw [insertAfter, if_pos here, List.mem_cons, List.mem_append, List.mem_cons, List.mem_cons]
      have place : d = x ∨ d ∈ rest := .inl here.symm
      tauto
    · simp only [insertAfter, if_neg here, List.mem_cons, ih, Ne.symm here, false_or]
      tauto

/-- A path that ends where nothing follows contains every other path from the same element. -/
theorem prefix_of_path {front back : List Handle} (unique : Unique predecessor)
    (short : Path predecessor (x :: front)) (long : Path predecessor (x :: back))
    (ended : ∀ y, predecessor y ≠ some ((x :: back).getLast (List.cons_ne_nil x back))) :
    front <+: back := by
  induction front generalizing x back with
  | nil => exact List.nil_prefix
  | cons y front ih =>
    obtain ⟨link, short⟩ := List.isChain_cons_cons.1 short
    cases back with
    | nil => exact absurd link (ended y)
    | cons z back =>
      obtain ⟨link', long⟩ := List.isChain_cons_cons.1 long
      obtain rfl := unique y z x link link'
      rw [List.getLast_cons (List.cons_ne_nil y back)] at ended
      exact (List.prefix_cons_inj y).2 (ih short long ended)

theorem exists_previous {root : Handle} (path : Path predecessor (root :: l))
    (member : x ∈ root :: l) (inner : x ≠ root) : ∃ z ∈ root :: l, predecessor x = some z := by
  induction l generalizing root with
  | nil => exact absurd (List.mem_singleton.1 member) inner
  | cons y rest ih =>
    obtain ⟨link, onwards⟩ := List.isChain_cons_cons.1 path
    rcases List.mem_cons.1 member with rfl | later
    · exact absurd rfl inner
    by_cases next : x = y
    · exact ⟨root, by simp, next ▸ link⟩
    · obtain ⟨z, here, link⟩ := ih onwards later next
      exact ⟨z, List.mem_cons_of_mem root here, link⟩

/-- A strand that meets a run outside its root contains the head of the run. -/
theorem head_mem_of_meets {root : Handle} (path : Path predecessor (root :: l))
    (run : Path predecessor (b :: rest)) (outside : root ∉ b :: rest)
    (member : x ∈ b :: rest) (meets : x ∈ root :: l) : b ∈ root :: l := by
  induction rest generalizing b with
  | nil => exact List.mem_singleton.1 member ▸ meets
  | cons c rest ih =>
    obtain ⟨link, onwards⟩ := List.isChain_cons_cons.1 run
    rcases List.mem_cons.1 member with rfl | later
    · exact meets
    have next := ih onwards (fun inside => outside (List.mem_cons_of_mem b inside)) later
    have inner : c ≠ root := by
      rintro rfl
      exact outside (by simp)
    obtain ⟨z, here, link'⟩ := exists_previous path next inner
    rwa [Option.some.inj (link.symm.trans link')]

theorem mem_of_head_mem (run : Path predecessor (b :: rest))
    (closed : ∀ z ∈ l, ∀ y, predecessor y = some z → y ∈ l) (head : b ∈ l)
    (member : x ∈ b :: rest) : x ∈ l := by
  induction rest generalizing b with
  | nil => exact List.mem_singleton.1 member ▸ head
  | cons c rest ih =>
    obtain ⟨link, onwards⟩ := List.isChain_cons_cons.1 run
    rcases List.mem_cons.1 member with rfl | later
    · exact head
    · exact ih onwards (closed b head c link) later

/-- Links between elements outside the run stay when the run is taken out. -/
theorem withdrawn_of_notMem (away : h ∉ run.entities)
    (inner : x ∉ run.entities) (link : predecessor h = some x) :
    withdrawn predecessor run h = some x := by
  rw [withdrawn, if_neg away, if_neg, link]
  rw [link, Option.some.injEq]
  rintro rfl
  exact inner run.last_mem

theorem nodup_insert {front back inner : List Handle}
    (nodup : (front ++ d :: back).Nodup) (distinct : inner.Nodup)
    (away : ∀ h ∈ inner, h ∉ front ++ d :: back) :
    (front ++ d :: (inner ++ back)).Nodup := by
  have reordered := List.perm_append_comm_assoc (front ++ [d]) inner back
  simp only [List.append_assoc, List.singleton_append] at reordered
  refine reordered.nodup_iff.2 (List.nodup_append.2 ⟨distinct, nodup, ?_⟩)
  rintro x member _ here rfl
  exact away x member here

/-- Links to other elements than the target stay when a block is put elsewhere. -/
theorem inserted_of_ne (outside : h ∉ block.entities) (link : predecessor h = some x)
    (other : x ≠ d) : inserted predecessor (some d) block h = some x := by
  rw [inserted, if_neg outside, if_neg, link]
  rintro ⟨-, same⟩
  exact other (Option.some.inj (link.symm.trans same))

namespace Strand

variable {root : Handle}

/-- A run that meets a strand outside its root is a stretch of it. -/
theorem exists_split (strand : Strand predecessor (root :: l))
    (top : predecessor root = none) (ready : Withdrawable predecessor run)
    (unique : Unique predecessor) (outside : root ∉ run.entities) (member : x ∈ run.entities)
    (meets : x ∈ root :: l) :
    ∃ front back, root :: l = front ++ (run.entities ++ back) := by
  obtain ⟨b, rest, rfl⟩ := run.exists_eq_cons
  have head := head_mem_of_meets strand.path ready.contiguous outside member meets
  obtain ⟨front, back, split⟩ := List.append_of_mem head
  have path : Path predecessor (front ++ b :: back) := split ▸ strand.path
  have ended := strand.ended top
  have last : (root :: l).getLast (List.cons_ne_nil root l) =
      (b :: back).getLast (List.cons_ne_nil b back) := by
    simp only [split, List.getLast_append_of_ne_nil _ (List.cons_ne_nil b back)]
  rw [last] at ended
  obtain ⟨remaining, rfl⟩ :=
    prefix_of_path unique ready.contiguous path.right_of_append ended
  exact ⟨front, remaining, by simpa using split⟩

theorem mem_of_first_mem (strand : Strand predecessor l) (ready : Withdrawable predecessor run)
    (first : run.first ∈ l) (member : x ∈ run.entities) : x ∈ l := by
  obtain ⟨b, rest, rfl⟩ := run.exists_eq_cons
  exact mem_of_head_mem ready.contiguous strand.closed first member

theorem path_withdrawn (strand : Strand predecessor (root :: l))
    (top : predecessor root = none) (ready : Withdrawable predecessor run)
    (unique : Unique predecessor) (outside : root ∉ run.entities) :
    Path (ChainGraph.withdrawn predecessor run) ((root :: l).filter (· ∉ run.entities)) := by
  by_cases meets : ∃ x ∈ run.entities, x ∈ root :: l
  · obtain ⟨x, member, here⟩ := meets
    obtain ⟨front, back, split⟩ := strand.exists_split top ready unique outside member here
    have path : Path predecessor (front ++ (run.entities ++ back)) := split ▸ strand.path
    have nodup : (front ++ (run.entities ++ back)).Nodup := split ▸ strand.nodup
    obtain ⟨-, inner, before⟩ := List.nodup_append.1 nodup
    obtain ⟨-, -, behind⟩ := List.nodup_append.1 inner
    have awayFront (h : Handle) (there : h ∈ front) : h ∉ run.entities :=
      fun both => before h there h (List.mem_append_left back both) rfl
    have awayBack (h : Handle) (there : h ∈ back) : h ∉ run.entities :=
      fun both => behind h both h there rfl
    have rest : (root :: l).filter (· ∉ run.entities) = front ++ back := by
      rw [split, List.filter_append, List.filter_append,
        List.filter_eq_self.2 fun h there => decide_eq_true (awayFront h there),
        List.filter_eq_self.2 fun h there => decide_eq_true (awayBack h there),
        List.filter_eq_nil_iff.2 fun h there => by simp [there], List.nil_append]
    obtain ⟨pathFront, pathInner, enter⟩ := List.isChain_append.1 path
    obtain ⟨-, pathBack, leave⟩ := List.isChain_append.1 pathInner
    rw [rest]
    refine .append (pathFront.imp_of_mem_imp ?_) (pathBack.imp_of_mem_imp ?_) ?_
    · exact fun x h here there => withdrawn_of_notMem (awayFront h there) (awayFront x here)
    · exact fun x h here there => withdrawn_of_notMem (awayBack h there) (awayBack x here)
    · -- What came behind the run moves up to the element in front of it.
      intro x last y next
      have first : predecessor run.first = some x :=
        enter x last run.first (by
          simp [SubChain.first, List.head?_append, List.head?_eq_some_head run.entities_ne_nil])
      have follows : predecessor y = some run.last :=
        leave run.last (by
          simp [SubChain.last, List.getLast?_eq_some_getLast run.entities_ne_nil]) y next
      rw [ChainGraph.withdrawn, if_neg (awayBack y (List.mem_of_mem_head? next)),
        if_pos follows, first]
  · have away (h : Handle) (here : h ∈ root :: l) : h ∉ run.entities :=
      fun member => meets ⟨h, member, here⟩
    rw [List.filter_eq_self.2 fun h here => decide_eq_true (away h here)]
    exact strand.path.imp_of_mem_imp fun x h here there =>
      withdrawn_of_notMem (away h there) (away x here)

/-- Taking a run out deletes it from the chains. -/
theorem withdrawn (strand : Strand predecessor (root :: l))
    (top : predecessor root = none) (ready : Withdrawable predecessor run)
    (unique : Unique predecessor) (outside : root ∉ run.entities) :
    Strand (withdrawn predecessor run) ((root :: l).filter (· ∉ run.entities)) := by
  refine ⟨strand.path_withdrawn top ready unique outside, strand.nodup.filter _, ?_⟩
  intro z here y link
  have away := (ready.apart_withdrawn unique y z link).1
  have inStrand : z ∈ root :: l := List.mem_of_mem_filter here
  refine List.mem_filter.2 ⟨?_, decide_eq_true away⟩
  rw [ChainGraph.withdrawn, if_neg away] at link
  split at link
  · rename_i follows
    have first := strand.closed z inStrand run.first link
    exact strand.closed run.last (strand.mem_of_first_mem ready first run.last_mem) y follows
  · exact strand.closed z inStrand y link

/-- Putting a block elsewhere leaves a chain alone. -/
theorem inserted_elsewhere (strand : Strand predecessor l)
    (away : ∀ h ∈ block.entities, h ∉ l) (elsewhere : ∀ d, target = some d → d ∉ l) :
    Strand (inserted predecessor target block) l := by
  refine ⟨?_, strand.nodup, ?_⟩
  · refine strand.path.imp_of_mem_imp fun x h here there link => ?_
    rw [inserted, if_neg fun member => away h member there, if_neg, link]
    rintro ⟨-, same⟩
    exact elsewhere x (same.symm.trans link) here
  · intro z here y link
    unfold inserted at link
    split at link
    · rcases predecessorIn_eq_some link with start | member
      · exact absurd here (elsewhere z start)
      · exact absurd here (away z member)
    split at link
    · cases link
      exact absurd here (away _ block.last_mem)
    · exact strand.closed z here y link

theorem path_inserted_after {front back : List Handle}
    (strand : Strand predecessor (front ++ d :: back)) (nodup : block.entities.Nodup)
    (away : ∀ h ∈ block.entities, h ∉ front ++ d :: back) :
    Path (inserted predecessor (some d) block)
      (front ++ d :: (block.entities ++ back)) := by
  obtain ⟨-, nodupBack, between⟩ := List.nodup_append.1 strand.nodup
  have before : d ∉ front := fun here => between d here d (by simp) rfl
  have behind : d ∉ back := (List.nodup_cons.1 nodupBack).1
  have outside {h : Handle} (there : h ∈ front ++ d :: back) : h ∉ block.entities :=
    fun member => away h member there
  obtain ⟨pathFront, pathBack, enter⟩ := List.isChain_append.1 strand.path
  obtain ⟨leave, pathBack⟩ := List.isChain_cons.1 pathBack
  have pathBlock : Path (inserted predecessor (some d) block) block.entities :=
    path_of_agree nodup fun h member => if_pos member
  have exit : ∀ x ∈ block.entities.getLast?, ∀ y ∈ back.head?,
      inserted predecessor (some d) block y = some x := by
    intro x last y next
    have isLast : block.last = x := by
      simpa [SubChain.last, List.getLast?_eq_some_getLast block.entities_ne_nil] using last
    rw [inserted, if_neg (outside (by simp [List.mem_of_mem_head? next])),
      if_pos ⟨rfl, leave y next⟩, isLast]
  have head : ∀ y ∈ (block.entities ++ back).head?,
      inserted predecessor (some d) block y = some d := by
    intro y next
    have isFirst : block.first = y := by
      simpa [SubChain.first, List.head?_append,
        List.head?_eq_some_head block.entities_ne_nil] using next
    rw [← isFirst, inserted, if_pos block.first_mem, predecessorIn_first]
  refine .append (pathFront.imp_of_mem_imp fun x h here there link => ?_)
    (.cons (.append pathBlock (pathBack.imp_of_mem_imp fun x h here there link => ?_) exit) head)
    ?_
  · exact inserted_of_ne (outside (by simp [there])) link fun same => before (same ▸ here)
  · exact inserted_of_ne (outside (by simp [there])) link fun same => behind (same ▸ here)
  · intro x last y next
    cases next
    have here := List.mem_of_getLast? last
    exact inserted_of_ne (outside (by simp)) (enter x last d rfl)
      fun same => before (same ▸ here)

/-- Putting a block behind an element of a chain inserts it into the list. -/
theorem inserted_after (strand : Strand predecessor l) (apart : Apart predecessor block)
    (nodup : block.entities.Nodup) (away : ∀ h ∈ block.entities, h ∉ l) (place : d ∈ l) :
    Strand (inserted predecessor (some d) block) (insertAfter d block.entities l) := by
  obtain ⟨front, back, rfl⟩ := List.append_of_mem place
  have before : d ∉ front := fun here =>
    (List.nodup_append.1 strand.nodup).2.2 d here d (by simp) rfl
  rw [insertAfter_append before]
  refine ⟨strand.path_inserted_after nodup away, nodup_insert strand.nodup nodup away, ?_⟩
  intro z here y link
  by_cases member : y ∈ block.entities
  · simp [member]
  have found : y ∈ front ++ d :: back := by
    rw [inserted, if_neg member] at link
    split at link
    · rename_i follows
      exact strand.closed d (by simp) y follows.2
    · have other := (apart y z link).2
      refine strand.closed z ?_ y link
      simpa [other] using here
  rcases List.mem_append.1 found with there | there
  · simp [there]
  · rcases List.mem_cons.1 there with rfl | there <;> simp [*]

end Strand

/-! ## Both stages together -/

/-- What is placed after what when a run has been moved behind the target. -/
def relocated (predecessor : Handle → Option Handle) (run : SubChain) (target : Option Handle)
    (reversing : Bool) : Handle → Option Handle :=
  inserted (withdrawn predecessor run) target (run.oriented reversing)

variable {reversing : Bool}

theorem Liftable.apart_oriented (ready : Liftable predecessor run)
    (unique : Unique predecessor) (reversing : Bool) :
    Apart (ChainGraph.withdrawn predecessor run) (run.oriented reversing) := by
  intro h x link
  simpa using ready.apart_withdrawn unique h x link

theorem Liftable.unique_relocated (ready : Liftable predecessor run)
    (unique : Unique predecessor) (away : ∀ d, target = some d → d ∉ run.entities) :
    Unique (relocated predecessor run target reversing) :=
  unique_inserted (ready.apart_oriented unique reversing) (unique_withdrawn unique)
    (SubChain.nodup_oriented.2 ready.nodup) (by simpa using away)

/-- Moving a run behind the element that it is placed after changes nothing. -/
theorem Withdrawable.relocated_self (ready : Withdrawable predecessor run)
    (unique : Unique predecessor) :
    relocated predecessor run (predecessor run.first) false = predecessor :=
  ready.inserted_withdrawn unique

theorem relocated_first : relocated predecessor run target reversing
    (run.oriented reversing).first = target := by
  rw [relocated, inserted, if_pos (SubChain.first_mem _), predecessorIn_first]

/-- Moving the block back to where the run was takes a relocation back. -/
theorem Withdrawable.relocated_relocated (ready : Withdrawable predecessor run)
    (unique : Unique predecessor) :
    relocated (relocated predecessor run target reversing) (run.oriented reversing)
      (predecessor run.first) reversing = predecessor := by
  unfold relocated
  rw [withdrawn_inserted (ready.apart_oriented unique reversing), SubChain.oriented_oriented,
    ready.inserted_withdrawn unique]

theorem exists_respliced_cons (target : Option Handle) (reversing : Bool) (l : List Handle)
    {root : Handle} (outside : root ∉ run.entities) :
    ∃ rest, respliced run target reversing (root :: l) = root :: rest := by
  have kept : (root :: l).filter (· ∉ run.entities) =
      root :: l.filter (· ∉ run.entities) := List.filter_cons_of_pos (by simpa using outside)
  unfold respliced
  rw [kept]
  cases target with
  | none => exact ⟨_, rfl⟩
  | some d => exact ⟨_, rfl⟩

/-- A relocation changes the list of a chain as it is to. -/
theorem Strand.relocated {root : Handle} (strand : Strand predecessor (root :: l))
    (top : predecessor root = none) (ready : Withdrawable predecessor run)
    (unique : Unique predecessor) (outside : root ∉ run.entities) :
    Strand (relocated predecessor run target reversing)
      (respliced run target reversing (root :: l)) := by
  have others := strand.withdrawn top ready unique outside
  have away : ∀ h ∈ (run.oriented reversing).entities,
      h ∉ (root :: l).filter (· ∉ run.entities) := by
    intro h member here
    have apart := (List.mem_filter.1 here).2
    simp_all
  unfold respliced
  cases target with
  | none => exact others.inserted_elsewhere away (by rintro d ⟨⟩)
  | some d =>
    by_cases place : d ∈ (root :: l).filter (· ∉ run.entities)
    · exact others.inserted_after (ready.apart_oriented unique reversing)
        (SubChain.nodup_oriented.2 ready.nodup) away place
    · simp only [insertAfter_of_notMem place]
      exact others.inserted_elsewhere away (by rintro _ ⟨⟩; exact place)

end ChainGraph

end PlanSearch
