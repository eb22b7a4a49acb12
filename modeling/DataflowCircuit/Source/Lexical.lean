import DataflowCircuit.Text.Digits

/-!
# Words of the Source Language

What stands between the words of a program, and how far each kind of word
reaches. A word is always read as far as it goes. Blanks are spaces, tabs and
line ends only; the wider notion of blank that metrics files use has no place
here.

A channel name is a path of identifiers joined by points. A reference may
carry an index after each identifier, which is part of the name; a declared
path carries none.

## Main definitions

* `skip`: The text after leading blanks and comments.
* `identifier?`: An identifier and the rest.
* `path?`: A declared channel path and the rest.
* `reference?`: A channel reference and the rest.
* `digits?`: A non-empty run of digits and the rest.

## Theorems

* `comment?_length`: A comment takes at least one character.
-/

namespace DataflowCircuit

namespace Source

/-- Does `c` end a line? -/
def isLineEnd (c : Char) : Bool :=
  c = '\n' || c = '\r'

/-- Is `c` a blank of the source language? -/
def isSpace (c : Char) : Bool :=
  c = ' ' || c = '\t' || isLineEnd c

/-- The text after the end of a block comment, if there is one. -/
def afterBlock : List Char → Option (List Char)
  | [] => none
  | '*' :: '/' :: cs => some cs
  | _ :: cs => afterBlock cs

/-- The text after a comment, if the text starts with one. A block comment
    that is never closed is none. -/
def comment? : List Char → Option (List Char)
  | '/' :: '*' :: cs => afterBlock cs
  | '/' :: '/' :: cs => some (cs.dropWhile (!isLineEnd ·))
  | _ => none

/-- The end of a block comment is part of it. -/
theorem afterBlock_length {cs rest : List Char} (h : afterBlock cs = some rest) :
    rest.length < cs.length := by
  fun_induction afterBlock cs with
  | case1 => simp at h
  | case2 cs =>
      cases h
      simp only [List.length_cons]
      omega
  | case3 c cs _ ih =>
      have := ih h
      simp only [List.length_cons]
      omega

/-- Dropping characters makes no text longer. -/
theorem length_dropWhile_le (p : Char → Bool) (cs : List Char) :
    (cs.dropWhile p).length ≤ cs.length := by
  induction cs with
  | nil => simp
  | cons c cs ih =>
      rw [List.dropWhile_cons]
      split
      · simp only [List.length_cons]
        omega
      · simp

/-- A comment takes at least one character. -/
theorem comment?_length {cs rest : List Char} (h : comment? cs = some rest) :
    rest.length < cs.length := by
  unfold comment? at h
  split at h
  · have := afterBlock_length h
    simp only [List.length_cons]
    omega
  · rename_i cs
    cases h
    have := length_dropWhile_le (!isLineEnd ·) cs
    simp only [List.length_cons]
    omega
  · simp at h

/-- The text after all leading blanks and comments. -/
def skip : List Char → List Char
  | [] => []
  | c :: cs =>
    if isSpace c then skip cs
    else
      match _h : comment? (c :: cs) with
      | some rest => skip rest
      | none => c :: cs
termination_by cs => cs.length
decreasing_by
  · simp
  · exact comment?_length _h

/-- May `c` start an identifier? -/
def isHead (c : Char) : Bool :=
  c.isAlpha || c = '_'

/-- May `c` continue an identifier? -/
def isTail (c : Char) : Bool :=
  c.isAlphanum || c = '_'

/-- An identifier and the rest of the text. -/
def identifier? : List Char → Option (List Char × List Char)
  | [] => none
  | c :: cs =>
    if isHead c then some (c :: cs.takeWhile isTail, cs.dropWhile isTail) else none

/-- A non-empty run of characters that satisfy `p`, and the rest. -/
def run? (p : Char → Bool) (cs : List Char) : Option (List Char × List Char) :=
  match cs.takeWhile p with
  | [] => none
  | ds => some (ds, cs.dropWhile p)

/-- A non-empty run of decimal digits and the rest. -/
def digits? (cs : List Char) : Option (List Char × List Char) :=
  run? Char.isDigit cs

/-- An index in brackets and the rest, both empty-handed if there is none. -/
def index (cs : List Char) : List Char × List Char :=
  match cs with
  | '[' :: inner =>
    match digits? inner with
    | some (ds, ']' :: rest) => ('[' :: ds ++ [']'], rest)
    | _ => ([], cs)
  | _ => ([], cs)

/-- An identifier with an optional index, and the rest. -/
def indexed? (cs : List Char) : Option (List Char × List Char) := do
  let (name, rest) ← identifier? cs
  let (idx, rest) := index rest
  return (name ++ idx, rest)

/-- Further segments of a path, each after a point. -/
def segments (segment : List Char → Option (List Char × List Char)) :
    Nat → List Char → List Char × List Char
  | 0, cs => ([], cs)
  | fuel + 1, cs =>
    match cs with
    | '.' :: inner =>
      match segment inner with
      | some (name, rest) =>
        let (more, rest) := segments segment fuel rest
        ('.' :: name ++ more, rest)
      | none => ([], cs)
    | _ => ([], cs)

/-- Segments joined by points, and the rest. -/
def dotted? (segment : List Char → Option (List Char × List Char)) (cs : List Char) :
    Option (List Char × List Char) := do
  let (name, rest) ← segment cs
  let (more, rest) := segments segment rest.length rest
  return (name ++ more, rest)

/-- A declared channel path and the rest. -/
def path? (cs : List Char) : Option (List Char × List Char) :=
  dotted? identifier? cs

/-- A channel reference and the rest. -/
def reference? (cs : List Char) : Option (List Char × List Char) :=
  dotted? indexed? cs

end Source

end DataflowCircuit
