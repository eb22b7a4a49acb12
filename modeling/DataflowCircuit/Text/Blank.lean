/-!
# Blank Characters

Metrics files, estimator replies and estimator commands are cut at blank
characters, and instance keys replace them. "Blank" is the Unicode property
`White_Space` throughout: twenty-five code points in ten ranges. The property
is data of a standard, so it stands here as a table and every cutting rule is
written once on top of it.

Texts are cut as lists of characters, which is the form the readers consume.

## Main definitions

* `blankRanges`: The code points with the property, as closed ranges.
* `isBlank`: Does a character have the property?
* `trimStart`, `trim`: A text without its outer blanks.
* `words`: The maximal runs of characters that are not blank.
* `lines`: A text cut at its line feeds.
-/

namespace DataflowCircuit

namespace Text

/-- The code points with the property `White_Space`, as closed ranges. -/
def blankRanges : List (Nat × Nat) :=
  [(0x09, 0x0D), (0x20, 0x20), (0x85, 0x85), (0xA0, 0xA0), (0x1680, 0x1680),
   (0x2000, 0x200A), (0x2028, 0x2029), (0x202F, 0x202F), (0x205F, 0x205F),
   (0x3000, 0x3000)]

/-- Is `c` a blank character? -/
def isBlank (c : Char) : Bool :=
  blankRanges.any fun r => r.1 ≤ c.toNat && c.toNat ≤ r.2

/-- The text from its first character that is not blank. -/
def trimStart (cs : List Char) : List Char :=
  cs.dropWhile isBlank

/-- The text between its first and its last character that is not blank. -/
def trim (cs : List Char) : List Char :=
  (trimStart (trimStart cs).reverse).reverse

/-- Collect words, where `word` holds the characters of the word being read,
    latest first. -/
def wordsFrom (word : List Char) : List Char → List (List Char)
  | [] => if word.isEmpty then [] else [word.reverse]
  | c :: cs =>
    if isBlank c then
      if word.isEmpty then wordsFrom [] cs else word.reverse :: wordsFrom [] cs
    else wordsFrom (c :: word) cs

/-- The maximal runs of characters that are not blank, in order. -/
def words (cs : List Char) : List (List Char) :=
  wordsFrom [] cs

/-- Collect lines, where `line` holds the characters of the line being read,
    latest first. -/
def linesFrom (line : List Char) : List Char → List (List Char)
  | [] => if line.isEmpty then [] else [line.reverse]
  | c :: cs =>
    if c = '\n' then line.reverse :: linesFrom [] cs else linesFrom (c :: line) cs

/-- The text cut at its line feeds. A final line feed starts no new line. -/
def lines (cs : List Char) : List (List Char) :=
  linesFrom [] cs

end Text

end DataflowCircuit
