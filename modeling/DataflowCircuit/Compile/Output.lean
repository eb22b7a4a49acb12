import DataflowCircuit.Files

/-!
# Outputs

Where a compilation writes: a standard stream, nowhere, or a file. A file is
created or emptied when it is first opened, and afterwards it is added to and
no longer created, so an output remembers whether it was opened, even if
opening failed.

The machine that a compilation runs on is a value: its files and what went
through its standard streams.

## Main definitions

* `Machine`: Files and standard streams.
* `Output`: Where to write.
* `Output.ofString`, `Output.text`: The spelling of outputs.
* `Output.write`: Write a text.
-/

namespace DataflowCircuit

/-- The files and standard streams that a compilation sees. -/
structure Machine where
  files : Files
  stdin : Contents
  stdout : String
  stderr : String
  deriving Repr

/-- Where a text is written. -/
inductive Output where
  | null
  | stdout
  | stderr
  /-- A file, and whether it has been opened before. -/
  | file (path : String) (opened : Bool)
  deriving DecidableEq, Repr

namespace Output

/-- The output that an option names. -/
def ofString (s : String) : Output :=
  if s = "-" || s = "<out>" then .stdout
  else if s = "<err>" then .stderr
  else if s = "<null>" then .null
  else .file s false

/-- The spelling of an output as an option. -/
def text : Output → String
  | .null => "<null>"
  | .stdout => "-"
  | .stderr => "<err>"
  | .file path _ => path

/-- The name of an output in messages. -/
def pathText : Output → String
  | .null => "<null>"
  | .stdout => "<stdout>"
  | .stderr => "<stderr>"
  | .file path _ => path

/-- The file that an output goes to. -/
def path? : Output → Option String
  | .file path _ => some path
  | _ => none

/-- Write a text to an output, which is opened even if the text is empty. The
    output that is returned remembers that it was opened. -/
def write (o : Output) (s : String) (m : Machine) : Output × Except Error Machine :=
  match o with
  | .null => (o, .ok m)
  | .stdout => (o, .ok { m with stdout := m.stdout ++ s })
  | .stderr => (o, .ok { m with stderr := m.stderr ++ s })
  | .file path opened =>
    let files := if opened then m.files.extend path s else m.files.write path s
    (.file path true, files.map fun files => { m with files })

end Output

end DataflowCircuit
