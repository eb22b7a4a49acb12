import DataflowCircuit.Number.Rounding

/-!
# Double-Precision Numbers

A decimal number is turned into the nearest double, and a double into decimal
text with a fixed number of places. Both directions are computed exactly on
whole numbers, with a half going to the even neighbour, and only the final
bits are handed to the floating-point type: a conversion that rounded twice
would be off by one unit now and then.

A finite double is `m * 2 ^ q` with `m < 2 ^ 53` and `q ≥ -1074`. When `q` is
fixed by the size of the value, the bits are `(q + 1074) * 2 ^ 52 + m`, for
subnormal numbers too, and a significand that rounds up to `2 ^ 53` carries
into the exponent by itself.

## Main definitions

* `nearestBits`: The bits of the double nearest to a quotient.
* `ofDecimal`: The double nearest to `m * 10 ^ e`.
* `significand`, `exponent`: A finite double as a whole number times a power
  of two.
* `productBits`: The bits of the double nearest to a product.
* `fixed`: A double as decimal text with a fixed number of places.
* `truncate`, `ofSigned64`: Between doubles and signed 64-bit numbers.
-/

namespace DataflowCircuit

namespace Binary64

open Number

/-- The lowest bit of the exponent. It is also the leading bit of a normal
    significand, which is not stored. -/
def exponentBit : Nat := 1 <<< 52

/-- The bit of the sign. -/
def signBit : Nat := 1 <<< 63

/-- The bits of positive infinity. -/
def infinityBits : Nat := 2047 * exponentBit

/-- `num * 2 ^ k / den` for a power that may be negative, as a quotient. -/
def scaled (num den : Nat) (k : Int) : Nat × Nat :=
  if 0 ≤ k then (num <<< k.toNat, den) else (num, den <<< (-k).toNat)

/-- The exponent of the leading bit of `num / den`, both positive. -/
def leadingBit (num den : Nat) : Int :=
  let k : Int := (num.log2 : Int) - (den.log2 : Int)
  let (n, d) := scaled num den (-k)
  if d ≤ n then k else k - 1

/-- The bits of the double nearest to `num / den`, both positive; values
    beyond the largest double become infinity. -/
def nearestBits (num den : Nat) : Nat :=
  let q := max (leadingBit num den - 52) (-1074)
  let (n, d) := scaled num den (-q)
  min ((q + 1074).toNat * exponentBit + roundDiv n d) infinityBits

/-- The number of decimal digits of a positive number. -/
def decimalDigits (m : Nat) : Nat :=
  (Nat.toDigits 10 m).length

/-- The bits of the double nearest to `m * 10 ^ e`. Magnitudes far outside the
    range of a double are answered without forming the power. -/
def decimalBits (m : Nat) (e : Int) : Nat :=
  if m = 0 then 0
  else
    let size := e + decimalDigits m
    if 310 < size then infinityBits
    else if size < -330 then 0
    else if 0 ≤ e then nearestBits (m * Nat.pow 10 e.toNat) 1
    else nearestBits m (Nat.pow 10 (-e).toNat)

/-- The double nearest to `m * 10 ^ e`, negated if `negative`. -/
def ofDecimal (negative : Bool) (m : Nat) (e : Int) : Float :=
  let bits := decimalBits m e
  Float.ofBits (UInt64.ofNat (if negative then bits + signBit else bits))

/-- The significand in the bits of a finite double without its sign. -/
def significandOfBits (bits : Nat) : Nat :=
  if bits < exponentBit then bits else bits % exponentBit + exponentBit

/-- The power of two that goes with `significandOfBits`. -/
def exponentOfBits (bits : Nat) : Int :=
  if bits < exponentBit then -1074 else (bits / exponentBit : Nat) - 1075

/-- The bits of the double nearest to the product of two positive finite
    doubles, which are given by their bits. -/
def productBits (a b : Nat) : Nat :=
  let (n, d) := scaled (significandOfBits a * significandOfBits b) 1
    (exponentOfBits a + exponentOfBits b)
  nearestBits n d

/-- The whole number whose product with `2 ^ exponent` is the magnitude of a
    finite double. -/
def significand (x : Float) : Nat :=
  significandOfBits (x.toBits.toNat % signBit)

/-- The power of two that goes with `significand`. -/
def exponent (x : Float) : Int :=
  exponentOfBits (x.toBits.toNat % signBit)

/-- Is the sign bit set? Negative zero counts as negative. -/
def isNegative (x : Float) : Bool :=
  signBit ≤ x.toBits.toNat

/-- A finite double as decimal text with `places` places after the point; a
    half goes to the even digit, and the sign of zero is kept. -/
def fixed (places : Nat) (x : Float) : String :=
  let unit := Nat.pow 10 places
  let (n, d) := scaled (significand x * unit) 1 (exponent x)
  let units := roundDiv n d
  let whole := toString (units / unit)
  let digits := Nat.toDigits 10 (units % unit)
  let fraction := String.ofList (List.replicate (places - digits.length) '0' ++ digits)
  (if isNegative x then "-" else "") ++ whole ++ "." ++ fraction

/-- The signed 64-bit number nearest to a whole number. -/
def clamp (n : Int) : Int :=
  max Int64.minValue.toInt (min Int64.maxValue.toInt n)

/-- The whole number a double becomes when its fraction is dropped, clamped to
    the signed 64-bit range; a value that is no number becomes zero. -/
def truncate (x : Float) : Int :=
  if x.isNaN then 0
  else
    let (n, d) := scaled (significand x) 1 (exponent x)
    clamp (if isNegative x then -(n / d : Nat) else (n / d : Nat))

/-- A signed 64-bit number as the nearest double. -/
def ofSigned64 (n : Int64) : Float :=
  ofDecimal (n.toInt < 0) n.toInt.natAbs 0

end Binary64

end DataflowCircuit
