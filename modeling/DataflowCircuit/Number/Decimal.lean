import DataflowCircuit.Number.Binary64
import DataflowCircuit.Text.Digits

/-!
# Reading Numbers

Metrics files and estimator replies hold numbers as text. A number is read in
two ways: as a signed 64-bit whole number, and as a floating-point literal.
The literal is an optional sign and then `inf`, `infinity` or `nan` in any
case, or digits with an optional point and an optional exponent, with at
least one digit before the exponent.

## Main definitions

* `Literal`: A floating-point literal, still exact.
* `readLiteral?`: A literal from its text.
* `Literal.toFloat`: The nearest double.
* `readFloat?`: A double from its text.
* `readSigned64?`: A signed 64-bit whole number from its text.
* `inSigned64`: Is a whole number in the signed 64-bit range?
* `addSigned64?`, `sumSigned64?`: Sums that stay in the range.
-/

namespace DataflowCircuit

namespace Number

/-- A floating-point literal without its sign. -/
inductive Literal where
  | infinity
  | nan
  | finite (significand : Nat) (exponent : Int)

/-- Split an optional sign off a text; `true` means minus. -/
def splitSign : List Char → Bool × List Char
  | '-' :: cs => (true, cs)
  | '+' :: cs => (false, cs)
  | cs => (false, cs)

/-- The exponent part of a literal: nothing, or `e` or `E`, an optional sign
    and at least one digit. -/
def readExponent? : List Char → Option Int
  | [] => some 0
  | c :: cs =>
    if c = 'e' || c = 'E' then
      let (negative, digits) := splitSign cs
      if digits.isEmpty || !digits.all Char.isDigit then none
      else
        let n : Int := Text.ofDigits 10 digits
        some (if negative then -n else n)
    else none

/-- A literal without a sign that consists of digits. -/
def readFinite? (cs : List Char) : Option Literal := do
  let whole := cs.takeWhile Char.isDigit
  let rest := cs.dropWhile Char.isDigit
  let (fraction, rest) :=
    match rest with
    | '.' :: rest => (rest.takeWhile Char.isDigit, rest.dropWhile Char.isDigit)
    | _ => ([], rest)
  if whole.isEmpty && fraction.isEmpty then none
  else
    let exponent ← readExponent? rest
    return .finite (Text.ofDigits 10 (whole ++ fraction)) (exponent - fraction.length)

/-- A literal without a sign. -/
def readUnsigned? (cs : List Char) : Option Literal :=
  let lower := String.ofList (cs.map Char.toLower)
  if lower = "inf" || lower = "infinity" then some .infinity
  else if lower = "nan" then some .nan
  else readFinite? cs

/-- A literal and whether a minus stands before it. -/
def readLiteral? (cs : List Char) : Option (Bool × Literal) :=
  let (negative, digits) := splitSign cs
  (readUnsigned? digits).map (negative, ·)

/-- The double nearest to a literal. -/
def Literal.toFloat (negative : Bool) : Literal → Float
  | .infinity =>
    Float.ofBits (UInt64.ofNat (Binary64.infinityBits + if negative then Binary64.signBit else 0))
  | .nan => 0.0 / 0.0
  | .finite m e => Binary64.ofDecimal negative m e

/-- The double nearest to the literal `cs`, if it is one. -/
def readFloat? (cs : List Char) : Option Float :=
  (readLiteral? cs).map fun (negative, l) => l.toFloat negative

/-- Is `n` in the signed 64-bit range? -/
def inSigned64 (n : Int) : Bool :=
  Int64.minValue.toInt ≤ n && n ≤ Int64.maxValue.toInt

/-- A signed 64-bit whole number: an optional sign and at least one digit. -/
def readSigned64? (cs : List Char) : Option Int :=
  let (negative, digits) := splitSign cs
  if digits.isEmpty || !digits.all Char.isDigit then none
  else
    let m : Int := Text.ofDigits 10 digits
    let n := if negative then -m else m
    if inSigned64 n then some n else none

/-- The sum of two numbers, if it is in the signed 64-bit range. -/
def addSigned64? (a b : Int) : Option Int :=
  if inSigned64 (a + b) then some (a + b) else none

/-- The sum of a list from the left, if no partial sum leaves the signed
    64-bit range. -/
def sumSigned64? (ns : List Int) : Option Int :=
  ns.foldlM addSigned64? 0

end Number

end DataflowCircuit
