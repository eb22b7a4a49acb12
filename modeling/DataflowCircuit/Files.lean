import DataflowCircuit.Error
import DataflowCircuit.Text.Utf8

/-!
# Files

The files that a compilation reads and writes, as a value. A file holds text,
or octets that are no text, of which only the first malformed sequence
matters because such a file can be refused but not used.

A path is followed segment by segment, and every segment but the last has to
be a directory, also where the path returns from it. What stands at the end
need not exist: whether that is a fault depends on what is to be done there.
A path that ends in a slash insists on a directory.

Places are lists of names. They start at the working directory, or at the
root of the file system if the first name is empty. The names of the
directories above the working directory are not known, so they are written
with two points.

## Main definitions

* `Contents`: What a file holds.
* `Contents.ofOctets`: The contents that octets stand for.
* `Place`: A place in the file system.
* `Place.along`: The places that a path passes.
* `Files`: The existing files and directories.
* `Files.locate`: The place that a path leads to.
* `Files.read`: The contents of a file.
* `Files.write`: Replace the contents of a file.
* `Files.append`: Add to the contents of a file.
* `Files.extend`: Add to the contents of a file that exists.
-/

namespace DataflowCircuit

/-- What a file holds. -/
inductive Contents where
  | text (s : String)
  /-- Octets that are no text. -/
  | malformed (fault : Utf8.Fault)
  deriving DecidableEq, Repr

namespace Contents

/-- The contents that octets stand for. -/
def ofOctets (octets : List UInt8) : Contents :=
  match Utf8.decode octets with
  | .ok cs => .text (String.ofList cs)
  | .error fault => .malformed fault

/-- Contents with a text after them. What is malformed stays so. -/
def append : Contents → String → Contents
  | .text s, t => .text (s ++ t)
  | .malformed fault, _ => .malformed fault

end Contents

/-- A place in the file system, by the names on the way to it. -/
abbrev Place := List String

namespace Place

/-- The root of the file system. -/
def root : Place := [""]

/-- The directory above a place. Nothing is above the root. -/
def parent (p : Place) : Place :=
  match p.getLast? with
  | some "" => p
  | some ".." => p ++ [".."]
  | some _ => p.dropLast
  | none => [".."]

/-- The place that a segment of a path leads to. -/
def follow (p : Place) (segment : String) : Place :=
  if segment = "" || segment = "." then p
  else if segment = ".." then p.parent
  else p ++ [segment]

/-- Where a path starts. -/
def start (path : String) : Place :=
  if path.toList.head? = some '/' then root else []

/-- A path cut at its slashes. -/
def segments (path : String) : List String :=
  (path.toList.splitOn '/').map String.ofList

/-- The place that a path leads to if all directories on its way exist. -/
def ofPath (path : String) : Place :=
  (segments path).foldl follow (start path)

/-- The places after each of some segments, from a place on. -/
def stations (p : Place) : List String → List Place
  | [] => []
  | segment :: segments => p.follow segment :: stations (p.follow segment) segments

/-- The places that a path passes, of which the last is its end. -/
def along (path : String) : List Place :=
  stations (start path) (segments path)

end Place

/-- The files of a machine by their places, and the directories that are known
    to exist besides those on the way to a file. -/
structure Files where
  entries : List (Place × Contents)
  directories : List Place
  deriving Repr

namespace Files

/-- An empty working directory. -/
def empty : Files :=
  ⟨[], []⟩

/-- Replace the contents at a place, or add them. -/
def put (p : Place) (c : Contents) : List (Place × Contents) → List (Place × Contents)
  | [] => [(p, c)]
  | (q, d) :: rest => if q = p then (q, c) :: rest else (q, d) :: put p c rest

/-- The files of a working directory with the given contents. -/
def ofList (files : List (String × Contents)) : Files :=
  ⟨files.foldl (fun es f => put (Place.ofPath f.1) f.2 es) [], []⟩

/-- Is a place a directory? The working directory and what is above it are. -/
def isDirectory (fs : Files) (p : Place) : Bool :=
  p.all (· = "..") || p = Place.root || p ∈ fs.directories ||
    fs.entries.any fun e => p.isPrefixOf e.1 && p.length < e.1.length

/-- Check that a place is a directory that a path can go through. -/
def enter (fs : Files) (p : Place) : Except PathFault Unit :=
  if fs.isDirectory p then .ok ()
  else if (fs.entries.lookup p).isSome then .error .notDirectory
  else .error .missing

/-- Follow segments from a directory to the place at their end, and tell
    whether a slash after the last name insists on a directory. Segments that
    are empty follow such a slash. -/
def walk (fs : Files) (p : Place) : List String → Except PathFault (Place × Bool)
  | [] => .ok (p, false)
  | segment :: segments =>
    let q := p.follow segment
    if segment = "" || segment = "." || segment = ".." then fs.walk q segments
    else if segments.all (· = "") then .ok (q, !segments.isEmpty)
    else do
      fs.enter q
      fs.walk q segments

/-- The place that a path leads to, and whether the path insists on a
    directory there. -/
def locate (fs : Files) (path : String) : Except PathFault (Place × Bool) :=
  if path = "" then .error .missing
  else if '\x00' ∈ path.toList then .error .nulCharacter
  else fs.walk (Place.start path) (Place.segments path)

/-- The place and the contents of an existing file. -/
def find (fs : Files) (path : String) : Except PathFault (Place × Contents) := do
  let (p, slash) ← fs.locate path
  if fs.isDirectory p then .error .isDirectory
  else
    match fs.entries.lookup p with
    | none => .error .missing
    | some c => if slash then .error .notDirectory else .ok (p, c)

/-- The contents of a file. -/
def read (fs : Files) (path : String) : Except PathFault Contents :=
  (fs.find path).map (·.2)

/-- Does a path lead to a file or a directory? -/
def contains (fs : Files) (path : String) : Bool :=
  match fs.find path with
  | .ok _ => true
  | .error fault => fault = .isDirectory

/-- The place of a file that may have to be created. -/
def target (fs : Files) (path : String) : Except PathFault Place := do
  let (p, slash) ← fs.locate path
  if slash || fs.isDirectory p then .error .isDirectory else .ok p

/-- The files after the contents at a place are replaced. -/
def set (fs : Files) (p : Place) (c : Contents) : Files :=
  { fs with entries := put p c fs.entries }

/-- Replace the contents of a file, which is created if there is none. -/
def write (fs : Files) (path text : String) : Except Error Files :=
  match fs.target path with
  | .ok p => .ok (fs.set p (.text text))
  | .error fault => .error (.cannotWrite path fault)

/-- Add to the end of a file, which is created if there is none. -/
def append (fs : Files) (path text : String) : Except Error Files :=
  match fs.target path with
  | .ok p => .ok (fs.set p (((fs.entries.lookup p).getD (.text "")).append text))
  | .error fault => .error (.cannotWrite path fault)

/-- Add to the end of a file that exists. -/
def extend (fs : Files) (path text : String) : Except Error Files :=
  match fs.find path with
  | .ok (p, c) => .ok (fs.set p (c.append text))
  | .error fault => .error (.cannotWrite path fault)

/-- The text of a file, empty if there is none. -/
def textOf (fs : Files) (path : String) : String :=
  match fs.read path with
  | .ok (.text s) => s
  | _ => ""

end Files

end DataflowCircuit
