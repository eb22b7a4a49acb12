/-!
# Control Sequences

A log that does not go to a terminal must not hold what only a terminal
understands. Such a thing is a control character, or a sequence that starts
with the escape character and says by its next characters how long it is.
Removing them is a scan: a mode says inside what kind of sequence the next
character stands, and every character takes the scan to a mode and is either
kept or dropped.

A sequence that is cut short is left in two ways: another escape character
starts a new one, and the characters "cancel" and "substitute" return to the
text. White space that moves the cursor is kept even in the middle of a short
sequence, whereas a string, which has an end of its own, swallows everything
up to that end. The end of a string is an octet of the encoded text and not a
character, so a character that merely contains that octet ends it too.

## Main definitions

* `Mode`: Where the next character stands.
* `step`: The mode after a character, and whether the character is kept.
* `scan`: What is kept of a text.
* `strip`: A text without control characters and sequences.
-/

namespace DataflowCircuit

namespace Text

namespace ControlSequence

/-- Where a character stands. -/
inductive Mode where
  /-- Outside of every sequence. -/
  | text
  /-- After an escape character. -/
  | escape
  /-- In an escape sequence of several characters. -/
  | escapeIntermediate
  /-- In a control sequence. -/
  | control
  /-- In a command to the terminal's system. -/
  | command
  /-- Before the parameters of a device string. -/
  | deviceEntry
  /-- In the parameters of a device string. -/
  | deviceParameters
  /-- Between the parameters of a device string and its last letter. -/
  | deviceIntermediate
  /-- In the body of a string. -/
  | string
  deriving DecidableEq, Repr

/-- Is `c` between two code points? -/
def within (lo hi : Nat) (c : Char) : Bool :=
  lo ≤ c.toNat && c.toNat ≤ hi

/-- Does `c` move the cursor as white space does: a tab, a line feed, a form
    feed or a carriage return? -/
def isSpacing (c : Char) : Bool :=
  c = '\t' || c = '\n' || c = '\x0c' || c = '\r'

/-- Is `c` kept outside of sequences? -/
def isPlain (c : Char) : Bool :=
  isSpacing c || (0x20 ≤ c.toNat && c.toNat ≠ 0x7F)

/-- Does the encoding of `c` hold the octet that ends a string? The octets
    after the first hold six bits each. -/
def endsString (c : Char) : Bool :=
  let n := c.toNat
  let hasTail := fun k => (n >>> (6 * k)) % 64 = 0x1C
  (0x80 ≤ n && hasTail 0) || (0x800 ≤ n && hasTail 1) || (0x10000 ≤ n && hasTail 2)

/-- The mode after a character that follows an escape character. -/
def afterEscape (c : Char) : Mode :=
  if within 0x20 0x2F c then .escapeIntermediate
  else if c = '[' then .control
  else if c = ']' then .command
  else if c = 'P' then .deviceEntry
  else if c = 'X' || c = '^' || c = '_' then .string
  else if within 0x30 0x7E c then .text
  else .escape

/-- The mode after a character in the head of a device string. The head is
    read as far as it is regular; anything else starts the body at once. -/
def afterDevice (m : Mode) (c : Char) : Mode :=
  if within 0x20 0x2F c then .deviceIntermediate
  else if within 0x40 0x7E c then .string
  else if within 0x30 0x3F c then
    match m with
    | .deviceEntry => .deviceParameters
    | .deviceParameters => if within 0x30 0x3B c then .deviceParameters else .string
    | _ => .string
  else m

/-- The mode after a character `c`, and whether `c` is kept. -/
def step (m : Mode) (c : Char) : Mode × Bool :=
  if c = '\x1b' then (.escape, false)
  else if c = '\x18' || c = '\x1a' then (.text, false)
  else
    match m with
    | .text => (.text, isPlain c)
    | .escape => (afterEscape c, isSpacing c)
    | .escapeIntermediate => (if within 0x30 0x7E c then .text else m, isSpacing c)
    | .control => (if within 0x40 0x7E c then .text else m, isSpacing c)
    | .command => (if c = '\x07' then .text else m, false)
    | .string => (if endsString c then .text else m, false)
    | .deviceEntry | .deviceParameters | .deviceIntermediate => (afterDevice m c, false)

/-- What is kept of a text that starts in a mode. -/
def scan : Mode → List Char → List Char
  | _, [] => []
  | m, c :: cs =>
    let (next, kept) := step m c
    if kept then c :: scan next cs else scan next cs

/-- A text without control characters and sequences. -/
def strip (s : String) : String :=
  String.ofList (scan .text s.toList)

end ControlSequence

end Text

end DataflowCircuit
