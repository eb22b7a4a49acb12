import DataflowCircuit.Json.Basic

/-!
# Reading JSON

A value from its text. The text is a list of characters, every reading
function returns what is left, and the length of the text bounds how deep a
value nests and how many items it has.

## Main definitions

* `Json.readString?`: The code points of a string literal after its opening
  quote.
* `Json.readNumeral?`: A number.
* `Json.readValue?`: A value and the rest of the text.
* `Json.read?`: The value that a whole text denotes.
-/

namespace DataflowCircuit

namespace Json

/-- Is `c` a blank between the parts of a value? -/
def isGap (c : Char) : Bool :=
  c = ' ' || c = '\n' || c = '\t' || c = '\r'

/-- The text after leading blanks. -/
def skipGap (cs : List Char) : List Char :=
  cs.dropWhile isGap

/-- The code point of a one-letter escape. -/
def escapeLetter? (c : Char) : Option Nat :=
  if c = '"' || c = '\\' || c = '/' then some c.toNat
  else if c = 'b' then some 8
  else if c = 'f' then some 12
  else if c = 'n' then some 10
  else if c = 'r' then some 13
  else if c = 't' then some 9
  else none

/-- Join the surrogate pairs of a list of code units. -/
def joinSurrogates : List Nat → List Nat
  | [] => []
  | [u] => [u]
  | u :: v :: rest =>
    if 0xD800 ≤ u && u ≤ 0xDBFF && 0xDC00 ≤ v && v ≤ 0xDFFF then
      (0x10000 + (u - 0xD800) * 0x400 + (v - 0xDC00)) :: joinSurrogates rest
    else u :: joinSurrogates (v :: rest)

/-- The code units of a string literal after its opening quote, with surrogate
    pairs still apart, and the rest. -/
def readUnits? : List Char → Option (List Nat × List Char)
  | [] => none
  | '"' :: rest => some ([], rest)
  | '\\' :: 'u' :: a :: b :: c :: d :: rest =>
    if [a, b, c, d].all Text.isHexDigit then do
      let (units, rest) ← readUnits? rest
      return (Text.ofDigits 16 [a, b, c, d] :: units, rest)
    else none
  | '\\' :: c :: rest => do
    let unit ← escapeLetter? c
    let (units, rest) ← readUnits? rest
    return (unit :: units, rest)
  | c :: rest =>
    if c.toNat < 0x20 || c = '\\' then none
    else do
      let (units, rest) ← readUnits? rest
      return (c.toNat :: units, rest)

/-- The code points of a string literal after its opening quote, and the
    rest. -/
def readString? (cs : List Char) : Option (List Nat × List Char) :=
  (readUnits? cs).map fun (units, rest) => (joinSurrogates units, rest)

/-- The fraction of a number, if there is one: a point and digits. -/
def readFraction? : List Char → Option (List Char × List Char)
  | '.' :: cs =>
    match cs.takeWhile Char.isDigit with
    | [] => none
    | ds => some ('.' :: ds, cs.dropWhile Char.isDigit)
  | cs => some ([], cs)

/-- The exponent of a number, if there is one. -/
def readPower? : List Char → Option (List Char × List Char)
  | [] => some ([], [])
  | c :: cs =>
    if c = 'e' || c = 'E' then
      let (sign, cs) :=
        match cs with
        | '+' :: cs => (['+'], cs)
        | '-' :: cs => (['-'], cs)
        | cs => ([], cs)
      match cs.takeWhile Char.isDigit with
      | [] => none
      | ds => some (c :: sign ++ ds, cs.dropWhile Char.isDigit)
    else some ([], c :: cs)

/-- A number without its sign. Only zero may start with a zero. -/
def readMagnitude? (negative : Bool) (cs : List Char) : Option (Numeral × List Char) := do
  let (digits, rest) ←
    match cs with
    | '0' :: rest =>
      if (rest.head?.map Char.isDigit).getD false then none else some (['0'], rest)
    | cs =>
      match cs.takeWhile Char.isDigit with
      | [] => none
      | ds => some (ds, cs.dropWhile Char.isDigit)
  let (fraction, rest) ← readFraction? rest
  let (power, rest) ← readPower? rest
  return (⟨negative, digits, fraction ++ power⟩, rest)

/-- A number and the rest. -/
def readNumeral? : List Char → Option (Numeral × List Char)
  | '-' :: cs => readMagnitude? true cs
  | cs => readMagnitude? false cs

/-- Read a fixed word. -/
def readWord? (word : String) (value : Json) (cs : List Char) : Option (Json × List Char) :=
  (word.toList.isPrefixOf? cs).map (value, ·)

/-- The items of an array after its opening bracket or a comma, given how to
    read a value. -/
def readItems? (value : List Char → Option (Json × List Char)) :
    Nat → List Char → Option (List Json × List Char)
  | 0, _ => none
  | fuel + 1, cs => do
    let (item, rest) ← value (skipGap cs)
    match skipGap rest with
    | ',' :: rest =>
      let (items, rest) ← readItems? value fuel rest
      return (item :: items, rest)
    | ']' :: rest => return ([item], rest)
    | _ => none

/-- The fields of an object after its opening brace or a comma, given how to
    read a value. -/
def readFields? (value : List Char → Option (Json × List Char)) :
    Nat → List Char → Option (List (List Nat × Json) × List Char)
  | 0, _ => none
  | fuel + 1, cs =>
    match skipGap cs with
    | '"' :: rest => do
      let (key, rest) ← readString? rest
      match skipGap rest with
      | ':' :: rest =>
        let (item, rest) ← value (skipGap rest)
        match skipGap rest with
        | ',' :: rest =>
          let (fields, rest) ← readFields? value fuel rest
          return ((key, item) :: fields, rest)
        | '\x7d' :: rest => return ([(key, item)], rest)
        | _ => none
      | _ => none
    | _ => none

/-- A value that starts the text and nests at most `fuel` deep, and the
    rest. -/
def readValue? : Nat → List Char → Option (Json × List Char)
  | 0, _ => none
  | fuel + 1, cs =>
    match cs with
    | '"' :: rest => (readString? rest).map fun (points, rest) => (.string points, rest)
    | '[' :: rest =>
      match skipGap rest with
      | ']' :: rest => some (.array [], rest)
      | rest =>
        (readItems? (readValue? fuel) rest.length rest).map fun (items, rest) =>
          (.array items, rest)
    | '\x7b' :: rest =>
      match skipGap rest with
      | '\x7d' :: rest => some (.object [], rest)
      | rest =>
        (readFields? (readValue? fuel) rest.length rest).map fun (fields, rest) =>
          (.object fields, rest)
    | 't' :: _ => readWord? "true" (.bool true) cs
    | 'f' :: _ => readWord? "false" (.bool false) cs
    | 'n' :: _ => readWord? "null" .null cs
    | _ => (readNumeral? cs).map fun (n, rest) => (.number n, rest)

/-- The value that a whole text denotes. -/
def read? (text : String) : Option Json := do
  let cs := text.toList
  let (value, rest) ← readValue? (cs.length + 1) (skipGap cs)
  if (skipGap rest).isEmpty then some value else none

end Json

end DataflowCircuit
