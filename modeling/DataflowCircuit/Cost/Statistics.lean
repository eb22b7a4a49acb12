import DataflowCircuit.Cost.Basic
import DataflowCircuit.Error
import DataflowCircuit.Number.Decimal

/-!
# Statistics

Area and leakage of everything that was instantiated, by instance key, and
how many copies of each size were inserted. Keys stand in the order in which
they were first recorded. Sums that leave the signed 64-bit range are an
error.

A report lists each table with the largest values first, keys of equal value
in recorded order, each with its share of the total.

## Main definitions

* `Tally`: A sum per key.
* `Statistics`: The tallies of a run.
* `Statistics.record`: Count one instance.
* `Statistics.recordCopy`: Count one copy.
* `Statistics.totalArea`, `Statistics.totalLeakage`: The sums over all keys.
* `Statistics.report`: The statistics as text.
-/

namespace DataflowCircuit

/-- A sum per instance key, in the order of first additions. -/
abbrev Tally := List (String × Int)

namespace Tally

/-- Add to the sum of a key. -/
def add (key : String) (n : Int) : Tally → Except Error Tally
  | [] => .ok [(key, n)]
  | (k, m) :: rest =>
    if k = key then
      match Number.addSigned64? m n with
      | some sum => .ok ((k, sum) :: rest)
      | none => .error .costOverflow
    else do return (k, m) :: (← add key n rest)

/-- The sum over all keys, in their order. -/
def total (t : Tally) : Except Error Int :=
  match Number.sumSigned64? (t.map Prod.snd) with
  | some sum => .ok sum
  | none => .error .costOverflow

/-- The share of a value in a total, in percent. -/
def percent (value total : Int) : Float :=
  if total = 0 then 0.0
  else value.toInt64.toFloat / total.toInt64.toFloat * 100.0

/-- One row of a table: the key, its value and its share with one place. -/
def row (total : Int) (entry : String × Int) : String :=
  Text.padLeft 40 ' ' entry.1 ++ " " ++ Text.padLeft 8 ' ' (toString entry.2) ++ " " ++
    Text.padLeft 5 ' ' (Binary64.fixed 1 (percent entry.2 total)) ++ "%\n"

/-- A table under a title, largest values first. -/
def table (title : String) (t : Tally) : Except Error String := do
  let sum ← t.total
  let rows := t.mergeSort fun a b => b.2 ≤ a.2
  return title ++ ":\n" ++ String.join (rows.map (row sum)) ++
    Text.padLeft 40 ' ' "total" ++ " " ++ Text.padLeft 8 ' ' (toString sum) ++ "\n\n"

end Tally

/-- The statistics of a run. -/
structure Statistics where
  area : Tally
  leakage : Tally
  /-- The number of copies of each width and number of outputs. -/
  copies : List ((Nat × Nat) × Nat)
  deriving Repr

namespace Statistics

/-- Nothing was recorded. -/
def empty : Statistics :=
  ⟨[], [], []⟩

/-- Record one instance. -/
def record (s : Statistics) (key : String) (cost : Cost) : Except Error Statistics := do
  let area ← s.area.add key cost.area
  let leakage ← s.leakage.add key cost.leakage
  return { s with area, leakage }

/-- Raise the count of a copy size. -/
def bump (size : Nat × Nat) : List ((Nat × Nat) × Nat) → List ((Nat × Nat) × Nat)
  | [] => [(size, 1)]
  | (s, n) :: rest => if s = size then (s, n + 1) :: rest else (s, n) :: bump size rest

/-- Record one copy. -/
def recordCopy (s : Statistics) (width outputs : Nat) : Statistics :=
  { s with copies := bump (width, outputs) s.copies }

/-- The number of copies of a size. -/
def copyCount (s : Statistics) (width outputs : Nat) : Nat :=
  (s.copies.lookup (width, outputs)).getD 0

/-- The area of a key. -/
def areaOf (s : Statistics) (key : String) : Option Int :=
  s.area.lookup key

/-- The area of everything. -/
def totalArea (s : Statistics) : Except Error Int :=
  s.area.total

/-- The leakage of everything. -/
def totalLeakage (s : Statistics) : Except Error Int :=
  s.leakage.total

/-- Do two copy sizes stand in the order of the report, by width and then by
    number of outputs? -/
def sizeLe (a b : Nat × Nat) : Bool :=
  a.1 < b.1 || (a.1 = b.1 && a.2 ≤ b.2)

/-- The copy sizes in the order of the report. -/
def sortedCopies (s : Statistics) : List ((Nat × Nat) × Nat) :=
  s.copies.mergeSort fun a b => sizeLe a.1 b.1

/-- The lines of the copy table, with a heading for each width. -/
def copyLines (heading : Option Nat) : List ((Nat × Nat) × Nat) → String
  | [] => ""
  | ((width, outputs), n) :: rest =>
    (if heading = some width then "" else s!"{width}-bit copy:\n") ++
      s!"  {outputs} outputs: {n}\n" ++ copyLines (some width) rest

/-- The statistics as text. -/
def report (s : Statistics) : Except Error String := do
  let area ← s.area.table "Area Statistics"
  let leakage ← s.leakage.table "Leakage Statistics"
  return area ++ leakage ++ "Copy Statistics:\n" ++ copyLines none s.sortedCopies

end Statistics

end DataflowCircuit
