import DataflowCircuit.Cost.Basic
import DataflowCircuit.Error
import DataflowCircuit.Number.Decimal
import DataflowCircuit.Text.Blank

/-!
# Metrics Records

Costs are kept in line-oriented files. A line is a record, a key and its four
numbers; blank lines and lines that start with a number sign are ignored. A
field is a signed 64-bit number, or a finite decimal whose fraction is
dropped.

## Main definitions

* `readField?`: A number of a record.
* `readRecord`: The record on a line, if there is one.
* `readRecords`: The records of a file.
* `recordLine`: A record as a line.
-/

namespace DataflowCircuit

/-- A number of a record: a signed 64-bit number, or a finite decimal without
    its fraction. -/
def readField? (field : List Char) : Option Int :=
  match Number.readSigned64? field with
  | some n => some n
  | none => do
    let x ← Number.readFloat? field
    if x.isFinite then some (Binary64.truncate x) else none

/-- The fields of a record as numbers, or the first field that is none. -/
def readFields : List (List Char) → Except RecordFault (List Int)
  | [] => .ok []
  | field :: rest => do
    match readField? field with
    | some n => return n :: (← readFields rest)
    | none => throw (.notANumber (String.ofList field))

/-- The record on a line; nothing if the line is blank or a remark. -/
def readRecord (line : List Char) : Except RecordFault (Option (String × Cost)) :=
  match Text.words line with
  | [] => .ok none
  | ('#' :: _) :: _ => .ok none
  | key :: fields => do
    if fields.length ≠ 4 then throw (.fieldCount (String.ofList key) fields.length)
    match ← readFields fields with
    | [leakage, energy, delay, area] =>
      return some (String.ofList key, ⟨leakage, energy, delay, area⟩)
    | _ => return none

/-- The records of the lines from number `line` on. -/
def readLines (path : String) (line : Nat) : List (List Char) → Except Error (List (String × Cost))
  | [] => .ok []
  | cs :: rest =>
    match readRecord cs with
    | .error fault => .error (.metricsFile path line fault)
    | .ok none => readLines path (line + 1) rest
    | .ok (some record) => do return record :: (← readLines path (line + 1) rest)

/-- The records of a file. The path stands in diagnostics only. -/
def readRecords (path text : String) : Except Error (List (String × Cost)) :=
  readLines path 1 (Text.lines text.toList)

/-- A record as a line of a file. -/
def recordLine (key : String) (cost : Cost) : String :=
  key ++ " " ++ cost.text ++ "\n"

end DataflowCircuit
