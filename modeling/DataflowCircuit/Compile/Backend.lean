import DataflowCircuit.Compile.Output
import DataflowCircuit.Emit.Netlist
import DataflowCircuit.FunctionalUnit.Request

/-!
# Writing a Run

Three outputs receive the lowered processes of a run: the netlist gets the
processes, the library gets the templates inside one name space, and the
configuration gets the cost blocks. The name space is opened with the first
template and closed at the end of the run, whether or not there was a
template.

## Main definitions

* `Job`: What a compilation has done to the machine and reported so far.
* `Job.Step`: A computation on it.
* `Backend`: The three outputs.
* `Backend.emit`: Write a lowered process.
* `Backend.finish`: Close the library.
-/

namespace DataflowCircuit

/-- What a compilation has done so far. -/
structure Job where
  machine : Machine
  warnings : List Warning
  requests : List EstimateRequest

namespace Job

/-- A computation that changes a job and may fail, keeping the changes made
    before. -/
abbrev Step := EStateM Error Job

/-- A result or failure without a change. -/
def lift {α : Type} : Except Error α → Step α
  | .ok a => pure a
  | .error e => throw e

/-- Write a text to an output and return the output as it is afterwards. -/
def write (o : Output) (s : String) : Step Output := do
  let job ← get
  let (o, result) := o.write s job.machine
  set { job with machine := ← lift result }
  return o

end Job

/-- The three outputs of a run, and whether the name space of the library has
    been opened. -/
structure Backend where
  netlist : Output
  lib : Output
  conf : Output
  libraryOpen : Bool

namespace Backend

/-- Outputs to which nothing has been written. -/
def start (netlist lib conf : Output) : Backend :=
  ⟨netlist, lib, conf, false⟩

/-- What opens the name space of the library, unless it is open. -/
def opening (b : Backend) : String :=
  if b.libraryOpen then "" else "namespace " ++ librarySpace ++ " \x7b\n\n"

/-- Write to the library, whose name space is then open. -/
def writeLibrary (b : Backend) (s : String) : Job.Step Backend := do
  let lib ← Job.write b.lib (b.opening ++ s)
  return { b with lib, libraryOpen := true }

/-- Write a lowered process. -/
def emit (b : Backend) (p : LoweredProcess) : Job.Step Backend := do
  let netlist ← Job.write b.netlist (p.render ++ "\n")
  let b := { b with netlist }
  let b ←
    if p.templates.isEmpty then pure b
    else b.writeLibrary (String.join (p.templates.map fun t => t.render ++ "\n"))
  let conf ← Job.write b.conf (String.join (p.costBlocks.map CostBlock.render))
  return { b with conf }

/-- Write lowered processes in order. -/
def emitAll (b : Backend) : List LoweredProcess → Job.Step Backend
  | [] => return b
  | p :: ps => do
    let b ← b.emit p
    b.emitAll ps

/-- Close the name space of the library. -/
def finish (b : Backend) : Job.Step Backend :=
  b.writeLibrary "\x7d\n"

end Backend

end DataflowCircuit
