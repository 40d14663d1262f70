import PlanSearch.Assembly.Registry
import PlanSearch.Problem

/-!
# Queens on a board

Every queen owns a column and is to be placed on a row so that no two share a row or a diagonal.
Next to the row there are variables with unusual accessors, which show what the search relies on.
-/

namespace PlanSearch.Example

structure Queen where
  column : Nat
  row : Option Nat
  deriving DecidableEq, Repr

structure Queens where
  /-- The number of rows. -/
  rowCount : Nat
  queens : Array Queen
  score : Option (Score .simple)

namespace Queens

/-- One queen per column, on the given rows. -/
def ofRows (rows : List (Option Nat)) : Queens where
  rowCount := rows.length
  queens := (rows.zipIdx.map fun (row, column) => ⟨column, row⟩).toArray
  score := none

def rows (s : Queens) : List (Option Nat) := s.queens.toList.map Queen.row

def columns (s : Queens) : List Nat := s.queens.toList.map Queen.column

private def distance (a b : Nat) : Nat := (a - b) + (b - a)

/-- The number of conflicts between two queens: one for a shared row, one for a shared diagonal. -/
def conflictsBetween (a b : Queen) : Nat :=
  match a.row, b.row with
  | some x, some y =>
    (if x = y then 1 else 0) + (if distance x y = distance a.column b.column then 1 else 0)
  | _, _ => 0

/-- The number of conflicts of one queen with others. -/
def conflictsWith (a : Queen) : List Queen → Nat
  | [] => 0
  | b :: rest => conflictsBetween a b + conflictsWith a rest

/-- The number of conflicts among queens. -/
def conflicts : List Queen → Nat
  | [] => 0
  | a :: rest => conflictsWith a rest + conflicts rest

/-- The fewer conflicts the better. -/
def problem : Problem Queens .simple where
  score := Queens.score
  withScore s x := { s with score := x }
  isInitialized s := s.queens.all fun q => q.row.isSome
  calculate s := (Level.checked (-(conflicts s.queens.toList : Int))).map Score.ofLevel

private def rowOf (s : Queens) (i : Nat) : Option Nat := (s.queens[i]?).bind Queen.row

private def setRow (s : Queens) (i : Nat) (row : Option Nat) : Queens :=
  { s with queens := s.queens.modify i ({ · with row }) }

/-- The row of a queen. -/
def row : PlainVariable Queens := ⟨"row", 0, rowOf, setRow⟩

/-- The column of a queen, which cannot be taken away. -/
def column : PlainVariable Queens where
  name := "column"
  descriptorIndex := 1
  get s i := (s.queens[i]?).map Queen.column
  set s i target := match target with
    | none => s
    | some column => { s with queens := s.queens.modify i ({ · with column }) }

/-- The row of a queen, which only grows once it is set. -/
def stickyRow : PlainVariable Queens where
  name := "sticky_row"
  descriptorIndex := 0
  get := rowOf
  set s i target := match target, rowOf s i with
    | some new, some old => if old < new then setRow s i target else s
    | _, _ => setRow s i target

/-- The row of a queen. Every write also moves the last queen one column on, and once that queen is
far out the row that is written is one more than what was asked for. -/
def driftingRow : PlainVariable Queens where
  name := "drifting_row"
  descriptorIndex := 0
  get := rowOf
  set s i target :=
    match s.queens.back? with
    | none => s
    | some last =>
      let column := last.column + 1
      let s := { s with queens := s.queens.modify (s.queens.size - 1) ({ · with column }) }
      setRow s i (if 3 * s.rowCount ≤ column then target.map (· + 1) else target)

/-! ## Names for settings -/

private def parity (x : Nat) : Float := Float.ofNat (x % 2)

/-- The named functions over rows and queens. -/
def plugins : Assembly.Plugins Queens Nat where
  filters :=
    [("even", fun _ x => x % 2 == 0), ("none", fun _ _ => false), ("all", fun _ _ => true),
     ("unplaced", fun s x => (rowOf s x).isNone)]
  sorters :=
    [("value", fun _ x => .ok (Float.ofNat x)), ("reverse", fun _ x => .ok (-Float.ofNat x)),
     ("parity", fun _ x => .ok (parity x)),
     ("row", fun s x => .ok (match rowOf s x with
        | some row => Float.ofNat row
        | none => -1.0))]
  weights :=
    [("value", fun _ x => .ok (Float.ofNat x)), ("one", fun _ _ => .ok 1.0),
     ("negative", fun _ _ => .ok (-1.0))]
  meters :=
    [("gap", fun _ a b => .ok (Float.ofNat (distance a b))), ("zero", fun _ _ _ => .ok 0.0)]

/-- All variables. Each ranges over all queens and all rows. -/
def vars : List (Assembly.RegisteredVariable Queens) :=
  [row, column, stickyRow, driftingRow].map fun v =>
    .plain v (fun s => s.queens.size) Queens.rowCount

end Queens

end PlanSearch.Example
