import PlanSearch.Selector.Basic

/-!
# Candidates that are shared

A recording selector remembers its last candidate under a name, and others can look at it there:
one that repeats it, or one that ranks its own candidates by their distance from it.
-/

namespace PlanSearch

/-- A named place in the shared memory for one candidate. -/
structure Recorder (M C : Type) where
  id : String
  recorded : M → Option C
  record : Option C → M → M

namespace Recorder

variable {M C : Type}

/-- The place holds what was put there last. -/
structure Lawful (r : Recorder M C) : Prop where
  recorded_record : ∀ m c, r.recorded (r.record c m) = c
  record_record : ∀ m c c', r.record c (r.record c' m) = r.record c m

/-- What the place holds. -/
def get (r : Recorder M C) : Draw M (Option C) := fun w => .ok (r.recorded w.memory, w)

/-- Puts a candidate into the place, or empties it. -/
def put (r : Recorder M C) (c : Option C) : Draw M Unit := fun w =>
  .ok ((), { w with memory := r.record c w.memory })

def describe (r : Recorder M C) : String :=
  Text.record "MimicRecorder" [("id", Text.quoted r.id)]

end Recorder

/-- Candidates remembered under names. -/
structure Recordings (C : Type) where
  entries : List (String × C) := []

namespace Recordings

variable {C : Type}

def get (m : Recordings C) (id : String) : Option C := m.entries.lookup id

def set (m : Recordings C) (id : String) (c : Option C) : Recordings C :=
  let others := m.entries.filter fun (key, _) => key != id
  match c with
  | none => ⟨others⟩
  | some c => ⟨(id, c) :: others⟩

/-- The place with a given name. -/
def recorder (id : String) : Recorder (Recordings C) C where
  id := id
  recorded m := m.get id
  record c m := m.set id c

end Recordings

namespace Selector

variable {M S C : Type}

/-- Remembers the last candidate of the pass. -/
def recording (child : Selector M S C) (recorder : Recorder M C) : Selector M S C where
  State := child.State
  start := child.start
  cacheType := child.cacheType
  neverEnding := child.neverEnding
  size := child.size
  handle hook set st := do
    let st ← child.handle hook set st
    if hook = .phaseEnded then recorder.put none
    return st
  restart set st := do
    recorder.put none
    child.restart set st
  next set st := do
    let (candidate, st) ← child.next set st
    if candidate.isSome then recorder.put candidate
    return (candidate, st)
  describe st := Text.record "MimicRecordingSelector"
    [("child", child.describe st), ("recorder_id", Text.quoted recorder.id)]

/-- Repeats what was remembered, once per pass. The state says whether that has happened. -/
def replaying (recorder : Recorder M C) : Selector M S C where
  State := Bool
  start := false
  neverEnding := false
  size _ _ := .ok 1
  handle _ _ replayed := pure replayed
  restart _ _ := pure false
  next _ replayed := do
    if replayed then return (none, true)
    let candidate ← recorder.get
    return (candidate, candidate.isSome)
  describe replayed := Text.record "MimicReplayingSelector"
    [("recorder_id", Text.quoted recorder.id), ("replayed", Text.truth replayed)]

end Selector

end PlanSearch
