/-!
# Rounding Quotients

Decimal numbers become binary ones, and binary ones become decimal text, by
rounding an exact quotient of whole numbers to the nearest whole number. A
half goes to the even neighbour in both directions, so the rule stands here
once.

## Main definitions

* `roundDiv`: The whole number nearest to a quotient, a half going to even.
-/

namespace DataflowCircuit

namespace Number

/-- The whole number nearest to `num / den`; a half goes to the even
    neighbour. -/
def roundDiv (num den : Nat) : Nat :=
  let q := num / den
  let r := num % den
  if 2 * r < den then q
  else if den < 2 * r then q + 1
  else if q % 2 = 0 then q else q + 1

end Number

end DataflowCircuit
