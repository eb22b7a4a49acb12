import DataflowCircuit.Cost.Estimate
import DataflowCircuit.Cost.Statistics
import DataflowCircuit.Cost.Table
import DataflowCircuit.Lowering.Cache

/-!
# Sessions

The state that the processes of a run share: what has been written, what is
known about costs, what was counted, and the files in which newly estimated
costs are kept. A step of a session that fails keeps the changes made before
it failed; so does the session.

The cost of a functional unit is looked up first. A unit that only forwards
needs no cost, and without an estimator there is none. Otherwise the
estimator is asked, its answer is entered into the table under the unit's
key, and the record is appended to the custom file if there is one. A unit is
therefore estimated once in a run, and not again in a later run that loads
the file.

## Main definitions

* `Session`: The state of a run.
* `Session.Step`: A computation on a session.
* `loadMetrics`, `useCustomFile`: Load costs.
* `requireCost`: The cost of a structural element.
* `unitCost`: The cost of a functional unit.
* `disambiguate`: The template name of a unit.
-/

namespace DataflowCircuit

/-- The state of a run. -/
structure Session where
  /-- Use the pipelined structural templates? -/
  pipeline : Bool
  cache : Cache
  metrics : MetricsTable
  /-- The file to which estimated costs are appended. -/
  custom : Option String
  estimator : Option Estimator
  /-- The requests made so far. -/
  requests : List EstimateRequest
  stats : Statistics
  warnings : List Warning
  files : Files

namespace Session

/-- A run that has done nothing yet. -/
def start (pipeline : Bool) (files : Files) : Session where
  pipeline := pipeline
  cache := .empty
  metrics := []
  custom := none
  estimator := none
  requests := []
  stats := .empty
  warnings := []
  files := files

/-- A computation that changes a session and may fail, keeping the changes
    made before. -/
abbrev Step := EStateM Error Session

/-- A result or failure without a change. -/
def lift {α : Type} : Except Error α → Step α
  | .ok a => pure a
  | .error e => throw e

/-- Report situations. -/
def warn (ws : List Warning) : Step Unit :=
  modify fun s => { s with warnings := s.warnings ++ ws }

/-- Enter a cost into the table. -/
def insertCost (key : String) (cost : Cost) : Step Unit := do
  let (table, ws) := (← get).metrics.insert key cost
  modify fun s => { s with metrics := table }
  warn ws

/-- Load a metrics file and return its number of records. -/
def loadMetrics (path : String) : Step Nat := do
  let s ← get
  let records ← lift (loadRecords s.files path)
  let (table, ws) := s.metrics.insertAll records
  modify fun s => { s with metrics := table }
  warn ws
  return records.length

/-- Keep estimated costs in a file, and load it if it exists. -/
def useCustomFile (path : String) : Step Unit := do
  if (← get).files.contains path then
    let _ ← loadMetrics path
  modify fun s => { s with custom := some path }

/-- The cost of a structural element, which must be known. -/
def requireCost (key : String) : Step Cost := do
  lift ((← get).metrics.require key)

/-- Append a record to the custom file, if there is one. -/
def persist (key : String) (cost : Cost) : Step Unit := do
  let s ← get
  match s.custom with
  | none => return ()
  | some path =>
    let files ← lift (s.files.append path (recordLine (normalizeKey key) cost))
    set { s with files }

/-- Ask an estimator. The request counts even if there is no answer. -/
def ask (est : Estimator) (request : EstimateRequest) : Step RawCost := do
  let s ← get
  set { s with requests := s.requests ++ [request] }
  match est.answer s.requests request with
  | .ok raw => return raw
  | .error fault => throw (.synthesis request.name fault)

/-- The key of the input latch of an estimated unit, per bit. -/
def latchKey : String := "latch1"

/-- The key of the join in front of an estimated unit. -/
def twoToOneKey : String := "twoToOne"

/-- Estimate the cost of a unit, enter it and keep it. -/
def synthesize (est : Estimator) (fu : FunctionalUnit) (graph : CostGraph) : Step Cost := do
  let latch ← requireCost latchKey
  let twoToOne ← requireCost twoToOneKey
  let request := graph.request fu
  let raw ← ask est request
  let cost ← lift (raw.normalize request latch twoToOne)
  insertCost fu.key cost
  persist fu.key cost
  return cost

/-- The cost of a functional unit: known, or estimated if the unit computes
    something and there is an estimator. -/
def unitCost (fu : FunctionalUnit) (graph : CostGraph) : Step (Option Cost) := do
  let s ← get
  match s.metrics.lookup fu.key with
  | some cost => return some cost
  | none =>
    if fu.isForward then return none
    match s.estimator with
    | none =>
      warn [.noEstimator fu.key]
      return none
    | some est => return some (← synthesize est fu graph)

/-- The template name of a unit called `name` with a body. -/
def disambiguate (name body : String) : Step String := do
  let (name, cache, ws) := (← get).cache.disambiguate name body
  modify fun s => { s with cache }
  warn ws
  return name

/-- Count an instance that has a cost. -/
def recordCost (key : String) (cost : Cost) : Step Unit := do
  let s ← get
  let stats ← lift (s.stats.record key cost)
  set { s with stats }

/-- Count a copy. -/
def recordCopy (width outputs : Nat) : Step Unit :=
  modify fun s => { s with stats := s.stats.recordCopy width outputs }

/-- Note a template name and say whether it is new. -/
def addTemplate (name : String) : Step Bool := do
  let (new, cache) := (← get).cache.addTemplate name
  modify fun s => { s with cache }
  return new

/-- Note an instance key and say whether it is new. -/
def addInstance (key : String) : Step Bool := do
  let (new, cache) := (← get).cache.addInstance key
  modify fun s => { s with cache }
  return new

end Session

end DataflowCircuit
