import DataflowCircuit.Compile.Backend
import DataflowCircuit.Compile.Command
import DataflowCircuit.Compile.Options
import DataflowCircuit.Lowering.Process
import DataflowCircuit.Process.Resolve
import DataflowCircuit.Source.Grammar

/-!
# Compiling

A compilation loads the metrics, reads and resolves the program, lowers every
process, and only then writes anything but the custom metrics file. Warnings
go to the log as they arise.

A command line is answered with an exit status and what was printed.

## Main definitions

* `prepareSession`: Load the metrics and set up the estimator.
* `readProgram`: The program that the options name.
* `writeStatistics`: Write the report of a run.
* `compile`: A whole compilation.
* `runCompiler`: A compilation from a machine to a machine.
* `runCommandLine`: The answer to a command line.
-/

namespace DataflowCircuit

/-- Load metrics files in order. -/
def loadAllMetrics : List String → Session.Step Unit
  | [] => return ()
  | path :: paths => do
    let _ ← Session.loadMetrics path
    loadAllMetrics paths

/-- Load the metrics and set up the estimator that the options name. -/
def prepareSession (programs : Programs) (o : Options) : Session.Step Unit := do
  loadAllMetrics o.metrics
  match o.customMetrics with
  | some path => Session.useCustomFile path
  | none => pure ()
  match o.estimator with
  | some command =>
    let est ← Session.lift (Estimator.ofCommand programs command)
    modify fun s => { s with estimator := some est }
  | none => pure ()

/-- The program in the input file, or on the input stream. -/
def readProgram (o : Options) (m : Machine) : Except Error Source.Program :=
  match o.input? with
  | some path =>
    match m.files.read path with
    | .error fault => .error (.invalidFile (.noInput path fault))
    | .ok (.malformed fault) => .error (.invalidFile (.malformedInput fault))
    | .ok (.text s) => Source.parse s
  | none =>
    match m.stdin with
    | .malformed _ => .error (.invalidFile .malformedStream)
    | .text s => Source.parse s

namespace Job

/-- Take over what a session did: its files, its warnings, which also go to
    the log, and its requests. -/
def absorb (level : LogLevel) (s : Session) (job : Job) : Job :=
  let log := if level.showsWarnings then String.join (s.warnings.map Warning.logLine) else ""
  { machine := { job.machine with files := s.files, stderr := job.machine.stderr ++ log }
    warnings := job.warnings ++ s.warnings
    requests := s.requests }

/-- Run a step of a session on the files of the machine. -/
def onSession {α : Type} (level : LogLevel) (step : Session.Step α) (s : Session) :
    Step (α × Session) := fun job =>
  match step { s with files := job.machine.files, warnings := [] } with
  | .ok a s => .ok (a, s) (absorb level s job)
  | .error e s => .error e (absorb level s job)

end Job

/-- Write a report of statistics. The output is opened before the report is
    made, so an output that cannot be opened is reported first. -/
def writeStatistics (out : Output) (stats : Statistics) : Job.Step Unit := do
  let out ← Job.write out ""
  let report ← Job.lift stats.report
  let _ ← Job.write out report

/-- A whole compilation. -/
def compile (programs : Programs) (o : Options) : Job.Step Unit := do
  let start := Session.start o.pipeline .empty
  let ((), session) ← Job.onSession o.logLevel (prepareSession programs o) start
  let program ← Job.lift (readProgram o (← get).machine)
  let processes ← Job.lift (Source.Program.resolve program)
  if o.dump then
    let _ ← Job.write .stderr (printProgram processes)
  let (lowered, session) ← Job.onSession o.logLevel (lowerAll processes) session
  let backend ← (Backend.start o.output o.lib o.conf).emitAll lowered
  let _ ← backend.finish
  match o.stats with
  | some out => writeStatistics out session.stats
  | none => pure ()

/-- How a compilation ended, and the job it leaves. -/
def runCompiler (programs : Programs) (o : Options) (m : Machine) : Except Error Unit × Job :=
  match compile programs o ⟨m, [], []⟩ with
  | .ok () job => (.ok (), job)
  | .error e job => (.error e, job)

/-- The exit status of a command line, and the machine it leaves. -/
def runCommandLine (programs : Programs) (args : List String) (m : Machine) : Nat × Machine :=
  match Request.ofArguments args with
  | .error fault => (1, { m with stderr := m.stderr ++ fault.report })
  | .ok .help => (0, { m with stdout := m.stdout ++ helpText })
  | .ok (.compile o) =>
    match runCompiler programs o m with
    | (.ok (), job) => (0, job.machine)
    | (.error e, job) =>
      let m := job.machine
      (1, { m with stderr := m.stderr ++ "Error: " ++ e.message ++ "\n" })

end DataflowCircuit
