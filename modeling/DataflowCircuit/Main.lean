import DataflowCircuit.Compile.Run

/-!
# The Command Line

The compiler as a program. Everything it does is decided by
`runCommandLine`, which maps a machine to a machine; what is left here is to
read the parts of the real machine that the options name, and to carry out
the changes.

No other program is ever started, so an estimator is reported as missing.

## Main definitions

* `loadMachine`: The parts of the real machine that a command line names.
* `storeMachine`: Carry out the changes.
* `main`: Run a command line.
-/

namespace DataflowCircuit

/-- The contents of a real file, if it can be read. -/
def loadContents? (path : String) : IO (Option Contents) := do
  let .ok octets ← (IO.FS.readBinFile path).toBaseIO | return none
  return some (.ofOctets octets.toList)

/-- A place as a path. -/
def pathOfPlace : Place → String
  | [] => "."
  | [""] => "/"
  | names => String.intercalate "/" names

/-- Is a place a real directory? -/
def directoryExists (p : Place) : IO Bool := do
  let .ok path ← (IO.FS.realPath (pathOfPlace p)).toBaseIO | return false
  path.isDir

/-- The real files and directories that a compilation may use. A file that is
    only written is not read first. -/
def loadFiles (o : Options) : IO Files := do
  let read := o.pathsRead.flatMap Place.along ++ o.pathsWritten.flatMap fun path =>
    (Place.along path).dropLast
  let found ← (read.map pathOfPlace).filterMapM fun path => do
    return (← loadContents? path).map fun contents => (path, contents)
  let passed := (o.pathsRead ++ o.pathsWritten).flatMap Place.along
  return { Files.ofList found with directories := ← passed.filterM directoryExists }

/-- The parts of the real machine that a command line names. The input stream
    is only read if the program comes from it. -/
def loadMachine (args : List String) : IO Machine := do
  match Request.ofArguments args with
  | .ok (.compile o) =>
    let files ← loadFiles o
    match o.input? with
    | some _ => return ⟨files, .text "", "", ""⟩
    | none =>
      let octets ← (← IO.getStdin).readBinToEnd
      return ⟨files, .ofOctets octets.toList, "", ""⟩
  | _ => return ⟨.empty, .text "", "", ""⟩

/-- Write the files in which two machines differ, and print the streams of the
    second. -/
def storeMachine (before after : Machine) : IO Unit := do
  for (place, contents) in after.files.entries do
    if before.files.entries.lookup place ≠ some contents then
      match contents with
      | .text s => IO.FS.writeFile (pathOfPlace place) s
      | .malformed _ => pure ()
  IO.print after.stdout
  IO.eprint after.stderr

end DataflowCircuit

open DataflowCircuit in
/-- Run a command line and return its exit status. -/
def main (args : List String) : IO UInt32 := do
  let before ← loadMachine args
  let (status, after) := runCommandLine (fun _ _ _ => .missing) args before
  storeMachine before after
  return status.toUInt32
