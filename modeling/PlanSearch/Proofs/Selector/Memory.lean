import Mathlib.Order.BooleanAlgebra.Set
import PlanSearch.Assembly.Registry

/-!
# What selectors remember for each other

Two memories that hold the same candidates serve selectors equally well. A memory can only hold
something in places that some selector records in, and each place is emptied when a phase ends. The
indices that it holds were yielded by selectors, so that they are in the range that these yield.
-/

namespace PlanSearch

/-- What is taken out of a table under one key leaves the other keys. -/
theorem lookup_filter {K V : Type} [DecidableEq K] (entries : List (K × V)) (key other : K) :
    (entries.filter fun entry => entry.1 != key).lookup other =
      if other = key then none else entries.lookup other := by
  induction entries with
  | nil => simp
  | cons entry rest ih =>
    obtain ⟨first, value⟩ := entry
    by_cases same : first = key
    · subst same
      rw [List.filter_cons_of_neg (by simp), ih, List.lookup_cons]
      split
      · rfl
      · rename_i apart
        rw [show (other == first) = false from beq_false_of_ne apart]
    · rw [List.filter_cons_of_pos (by simpa using same), List.lookup_cons, List.lookup_cons, ih]
      cases found : other == first with
      | true =>
        obtain rfl := eq_of_beq found
        exact (if_neg same).symm
      | false => rfl

namespace Recordings

variable {C : Type}

theorem get_set (m : Recordings C) (id other : String) (c : Option C) :
    (m.set id c).get other = if other = id then c else m.get other := by
  have others := lookup_filter m.entries id other
  cases c with
  | none => exact others
  | some c =>
    change List.lookup other ((id, c) :: m.entries.filter fun entry => entry.1 != id) = _
    rw [List.lookup_cons, others]
    by_cases same : other = id
    · rw [if_pos same, if_pos same, beq_iff_eq.2 same]
    · rw [if_neg same, if_neg same, beq_false_of_ne same]
      rfl

variable {m m' : Recordings C} {id other : String} {c : Option C}

theorem get_set_congr (same : ∀ id, m.get id = m'.get id) :
    (m.set id c).get other = (m'.set id c).get other := by rw [get_set, get_set, same]

/-- What a place holds was put there, or it is another place. -/
theorem of_get_set (held : (m.set id c).get other ≠ none) :
    other = id ∧ c ≠ none ∨ other ≠ id ∧ m.get other ≠ none := by
  rw [get_set] at held
  split at held
  · exact .inl ⟨‹_›, held⟩
  · exact .inr ⟨‹_›, held⟩

/-- What holds of everything that is held, and of what is put there, holds of everything after. -/
theorem forall_mem_get_set {P : C → Prop} (known : ∀ c' ∈ c, P c')
    (all : ∀ id, ∀ c' ∈ m.get id, P c') : ∀ other, ∀ c' ∈ (m.set id c).get other, P c' := by
  intro other c' held
  rw [get_set] at held
  split at held
  · exact known c' held
  · exact all other c' held

end Recordings

namespace Assembly

/-- A place of the memory. -/
inductive Slot where
  | index (id : String)
  | handle (id : String)

namespace Memory

/-- The memories hold the same candidates, only in the given places, and only indices in the range. -/
structure Recall (range : Nat → Prop) (K : Set Slot) (m m' : Memory) : Prop where
  indices : ∀ id, m.indices.get id = m'.indices.get id
  handles : ∀ id, m.handles.get id = m'.handles.get id
  index_mem : ∀ id, m.indices.get id ≠ none → Slot.index id ∈ K
  handle_mem : ∀ id, m.handles.get id ≠ none → Slot.handle id ∈ K
  index_range : ∀ id, ∀ i ∈ m.indices.get id, range i

variable {range : Nat → Prop}

theorem Recall.mono {K K' : Set Slot} {m m' : Memory} (h : Recall range K m m') (sub : K ⊆ K') :
    Recall range K' m m' :=
  ⟨h.indices, h.handles, fun id held => sub (h.index_mem id held),
    fun id held => sub (h.handle_mem id held), h.index_range⟩

/-- Empty memories hold the same candidates. -/
theorem Recall.of_empty {l l' m m' : Memory} (h : Recall range ∅ l l') (h' : Recall range ∅ m m') :
    Recall range ∅ l m' := by
  have none {K : Set Slot} {l l' : Memory} (h : Recall range K l l') (empty : K = ∅) (id : String) :
      (l.indices.get id = none ∧ l'.indices.get id = none) ∧
        l.handles.get id = none ∧ l'.handles.get id = none := by
    subst empty
    have index := not_ne_iff.1 fun held => h.index_mem id held
    have handle := not_ne_iff.1 fun held => h.handle_mem id held
    exact ⟨⟨index, (h.indices id).symm.trans index⟩, handle, (h.handles id).symm.trans handle⟩
  exact ⟨fun id => (none h rfl id).1.1.trans (none h' rfl id).1.2.symm,
    fun id => (none h rfl id).2.1.trans (none h' rfl id).2.2.symm, h.index_mem, h.handle_mem,
    h.index_range⟩

theorem recall_start : Recall range ∅ {} {} :=
  ⟨fun _ => rfl, fun _ => rfl, fun _ h => h rfl, fun _ h => h rfl, fun _ _ none => by cases none⟩

end Memory

/-- Candidates of a type have places of their own. -/
class HasSlots (C : Type) [Candidate C] where
  slot : String → Slot
  /-- An index is in the range; of other candidates nothing is asked. -/
  InRange : (Nat → Prop) → C → Prop
  recorded_congr : ∀ {range K m m'} (id : String), Memory.Recall range K m m' →
    (Candidate.recorder id : Recorder Memory C).recorded m =
      (Candidate.recorder id : Recorder Memory C).recorded m'
  inRange_recorded : ∀ {range K m m'} (id : String), Memory.Recall range K m m' →
    ∀ c ∈ (Candidate.recorder id : Recorder Memory C).recorded m, InRange range c
  record : ∀ {range K m m'} (id : String) (c : Option C), Memory.Recall range K m m' →
    slot id ∈ K → (∀ c' ∈ c, InRange range c') →
    Memory.Recall range K ((Candidate.recorder id).record c m) ((Candidate.recorder id).record c m')
  clear : ∀ {range K m m'} (id : String), Memory.Recall range K m m' →
    Memory.Recall range (K \ {slot id})
      ((Candidate.recorder id : Recorder Memory C).record none m)
      ((Candidate.recorder id : Recorder Memory C).record none m')

instance : HasSlots Nat where
  slot := .index
  InRange range := range
  recorded_congr id h := h.indices id
  inRange_recorded id h := h.index_range id
  record id c h member known := by
    refine ⟨fun _ => Recordings.get_set_congr h.indices, h.handles, fun other held => ?_,
      h.handle_mem, fun other i held => ?_⟩
    · rcases Recordings.of_get_set held with ⟨rfl, -⟩ | ⟨-, held⟩
      · exact member
      · exact h.index_mem other held
    · exact Recordings.forall_mem_get_set known h.index_range other i held
  clear id h := by
    refine ⟨fun _ => Recordings.get_set_congr h.indices, h.handles, fun other held => ?_,
      fun other held => ⟨h.handle_mem other held, by rintro ⟨⟩⟩, fun other i held => ?_⟩
    · rcases Recordings.of_get_set held with ⟨-, none⟩ | ⟨apart, held⟩
      · exact absurd rfl none
      · exact ⟨h.index_mem other held, fun same => apart (Slot.index.inj same)⟩
    · exact Recordings.forall_mem_get_set (fun _ none => by cases none) h.index_range other i held

instance : HasSlots Handle where
  slot := .handle
  InRange _ _ := True
  recorded_congr id h := h.handles id
  inRange_recorded _ _ _ _ := trivial
  record id c h member _ := by
    refine ⟨h.indices, fun _ => Recordings.get_set_congr h.handles, h.index_mem,
      fun other held => ?_, h.index_range⟩
    rcases Recordings.of_get_set held with ⟨rfl, -⟩ | ⟨-, held⟩
    · exact member
    · exact h.handle_mem other held
  clear id h := by
    refine ⟨h.indices, fun _ => Recordings.get_set_congr h.handles,
      fun other held => ⟨h.index_mem other held, by rintro ⟨⟩⟩, fun other held => ?_, h.index_range⟩
    rcases Recordings.of_get_set held with ⟨-, none⟩ | ⟨apart, held⟩
    · exact absurd rfl none
    · exact ⟨h.handle_mem other held, fun same => apart (Slot.handle.inj same)⟩

end Assembly

end PlanSearch
