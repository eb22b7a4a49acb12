import DataflowCircuit.Cost.Records
import DataflowCircuit.Files
import DataflowCircuit.Naming

/-!
# Metrics Tables

Known costs by instance key. Keys are normalized when costs are stored and
when they are looked up, so an instance key and its spelling in a file find
the same cost. A later record replaces an earlier one, which is reported if
the two differ.

## Main definitions

* `MetricsTable`: The known costs.
* `MetricsTable.lookup`: The cost of a key.
* `MetricsTable.require`: The cost of a key that must be known.
* `MetricsTable.insert`: Add a cost.
* `MetricsTable.insertAll`: Add the records of a file.
* `loadRecords`: The records of a file that must exist.
-/

namespace DataflowCircuit

/-- The known costs by normalized key. -/
abbrev MetricsTable := List (String × Cost)

namespace MetricsTable

/-- The cost of a key. -/
def lookup (t : MetricsTable) (key : String) : Option Cost :=
  List.lookup (normalizeKey key) t

/-- The cost of a key that must be known. -/
def require (t : MetricsTable) (key : String) : Except Error Cost :=
  match t.lookup key with
  | some cost => .ok cost
  | none => .error (.missingMetrics (normalizeKey key))

/-- Replace the cost under a normalized key, or add it. -/
def put (key : String) (cost : Cost) : MetricsTable → MetricsTable
  | [] => [(key, cost)]
  | (k, c) :: rest => if k = key then (k, cost) :: rest else (k, c) :: put key cost rest

/-- Add a cost, with a warning if it replaces a different one. -/
def insert (t : MetricsTable) (key : String) (cost : Cost) : MetricsTable × List Warning :=
  let warnings :=
    match t.lookup key with
    | some before =>
      if before = cost then []
      else [.overridden (normalizeKey key) before.text cost.text]
    | none => []
  (put (normalizeKey key) cost t, warnings)

/-- Add records in order. -/
def insertAll (t : MetricsTable) : List (String × Cost) → MetricsTable × List Warning
  | [] => (t, [])
  | (key, cost) :: rest =>
    let (t, ws) := t.insert key cost
    let (t, more) := insertAll t rest
    (t, ws ++ more)

end MetricsTable

/-- The records of a metrics file. -/
def loadRecords (fs : Files) (path : String) : Except Error (List (String × Cost)) :=
  match fs.read path with
  | .error fault => .error (.invalidFile (.noMetricsFile path fault))
  | .ok (.malformed _) => .error (.invalidFile (.malformedMetricsFile path))
  | .ok (.text s) => readRecords path s

end DataflowCircuit
