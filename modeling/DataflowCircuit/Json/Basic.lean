import DataflowCircuit.Number.Decimal
import DataflowCircuit.Text.Digits

/-!
# JSON Values

Estimate requests are exchanged as JSON. A value keeps its numbers as they
were written and its strings as code points, lone surrogates included,
because whether such a thing is acceptable depends on where it stands: a
value that nobody looks at may hold what a used value may not.

Written text is compact, and escapes nothing that need not be escaped.

## Main definitions

* `Json`: A value.
* `Json.Numeral`: A number as written.
* `Json.str`: A string value from a text.
* `Json.quoted`: A text as a string literal.
* `Json.render`: A value as compact text.
* `Json.text?`: The text of a string value.
* `Json.natural?`: The value of a numeral that is a natural number.
* `Json.Numeral.isFinite`: Is a numeral read as a finite double?
-/

namespace DataflowCircuit

namespace Json

/-- A number as written: its sign, the digits before the point, and the rest
    from the point or the exponent on. -/
structure Numeral where
  negative : Bool
  digits : List Char
  rest : List Char
  deriving DecidableEq, Repr

end Json

/-- A JSON value. Strings are lists of code points. -/
inductive Json where
  | null
  | bool (b : Bool)
  | number (n : Json.Numeral)
  | string (points : List Nat)
  | array (items : List Json)
  | object (fields : List (List Nat × Json))
  deriving Repr

namespace Json

/-- The code points of a text. -/
def pointsOf (s : String) : List Nat :=
  s.toList.map Char.toNat

/-- The text of code points that are all characters. -/
def ofPoints? (points : List Nat) : Option String :=
  if points.all (fun p => (Char.ofNat p).toNat = p) then
    some (String.ofList (points.map Char.ofNat))
  else none

/-- A string value. -/
def str (s : String) : Json :=
  .string (pointsOf s)

/-- A number value. -/
def nat (n : Nat) : Json :=
  .number ⟨false, Nat.toDigits 10 n, []⟩

/-- An object with text keys. -/
def obj (fields : List (String × Json)) : Json :=
  .object (fields.map fun (k, v) => (pointsOf k, v))

/-- The escape for a control character: a letter if it has one, else four
    digits of base sixteen. -/
def escapeControl (p : Nat) : String :=
  if p = 8 then "\\b"
  else if p = 9 then "\\t"
  else if p = 10 then "\\n"
  else if p = 12 then "\\f"
  else if p = 13 then "\\r"
  else "\\u" ++ Text.padLeft 4 '0' (Text.hex p)

/-- A code point inside a string literal. -/
def escapePoint (p : Nat) : String :=
  if p = 0x22 then "\\\""
  else if p = 0x5C then "\\\\"
  else if p < 0x20 then escapeControl p
  else String.singleton (Char.ofNat p)

/-- Code points as a string literal. -/
def quoted (points : List Nat) : String :=
  "\"" ++ String.join (points.map escapePoint) ++ "\""

mutual

/-- A value as compact text. -/
def render : Json → String
  | .null => "null"
  | .bool b => if b then "true" else "false"
  | .number n => (if n.negative then "-" else "") ++ String.ofList (n.digits ++ n.rest)
  | .string points => quoted points
  | .array items => "[" ++ renderItems items ++ "]"
  | .object fields => "\x7b" ++ renderFields fields ++ "\x7d"

/-- Items with commas between them. -/
def renderItems : List Json → String
  | [] => ""
  | [item] => item.render
  | item :: items => item.render ++ "," ++ renderItems items

/-- Fields with commas between them. -/
def renderFields : List (List Nat × Json) → String
  | [] => ""
  | [(key, value)] => quoted key ++ ":" ++ value.render
  | (key, value) :: fields => quoted key ++ ":" ++ value.render ++ "," ++ renderFields fields

end

/-- The text of a string value. -/
def text? : Json → Option String
  | .string points => ofPoints? points
  | _ => none

/-- The value of a numeral that is a natural number below `bound`: no sign, no
    point and no exponent. -/
def natural? (bound : Nat) : Json → Option Nat
  | .number ⟨false, digits, []⟩ =>
    let n := Text.ofDigits 10 digits
    if n < bound then some n else none
  | _ => none

namespace Numeral

/-- Take digits into a significand as long as it stays below `2 ^ 64`. What is
    left starts with the first digit that does not fit. -/
def takeDigits (significand : Nat) : List Char → Nat × List Char
  | [] => (significand, [])
  | c :: cs =>
    let next := significand * 10 + Text.digitValue c
    if next < UInt64.size then takeDigits next cs else (significand, c :: cs)

/-- The digits after the point, and the exponent part. -/
def splitFraction : List Char → List Char × List Char
  | '.' :: cs => (cs.takeWhile Char.isDigit, cs.dropWhile Char.isDigit)
  | cs => ([], cs)

/-- The significand and the power of ten that a numeral is read as. Digits
    that do not fit are dropped; before the point a dropped digit raises the
    power, after the point a digit that is taken lowers it. -/
def approximate? (n : Numeral) : Option (Nat × Int) := do
  let (whole, dropped) := takeDigits 0 n.digits
  let (fraction, rest) := splitFraction n.rest
  let (significand, ignored) := takeDigits whole fraction
  let exponent ← Number.readExponent? rest
  let places : Int := fraction.length - ignored.length
  return (significand, exponent + dropped.length - places)

/-- The largest power of ten that a double can hold. -/
def greatestPower : Int := 308

/-- Is a numeral read as a finite double? The significand and the power of ten
    are rounded to doubles each and then multiplied, so what decides is the
    product of the two and not the number as written. A power below one only
    makes a number smaller. -/
def isFinite (n : Numeral) : Bool :=
  match n.approximate? with
  | none => false
  | some (significand, power) =>
    significand = 0 || power ≤ 0 ||
      (power ≤ greatestPower &&
        Binary64.productBits (Binary64.decimalBits significand 0) (Binary64.decimalBits 1 power) <
          Binary64.infinityBits)

end Numeral

end Json

end DataflowCircuit
