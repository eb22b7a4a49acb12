/-!
# Bit Widths

A channel carries unsigned numbers of a fixed number of bits. Constants have
the width of their binary form, and zero still takes one bit.

## Main definitions

* `bitsFor`: The width of a number.
* `Fits`: Does a number fit in a width?
* `isChannelWidth`: Is a number a legal width of a channel or a cast?

## Theorems

* `fits_iff`: For a positive width, fitting is being below the power of two.
-/

namespace DataflowCircuit

/-- The number of bits needed to represent `n`; zero takes one. -/
def bitsFor (n : Nat) : Nat :=
  if n = 0 then 1 else n.log2 + 1

/-- Does `n` fit in an unsigned channel of `width` bits? -/
def Fits (n width : Nat) : Prop :=
  bitsFor n ≤ width

/-- Fitting is decided by comparing widths. -/
instance (n width : Nat) : Decidable (Fits n width) :=
  inferInstanceAs (Decidable (bitsFor n ≤ width))

/-- A width of a channel or a cast is a positive 32-bit number. -/
def isChannelWidth (w : Nat) : Bool :=
  0 < w && w < UInt32.size

/-- For a positive width, fitting is being below the power of two. -/
theorem fits_iff (n width : Nat) (h : 0 < width) : Fits n width ↔ n < 1 <<< width := by
  unfold Fits bitsFor
  rw [Nat.one_shiftLeft]
  split
  · subst n
    simp only [Nat.two_pow_pos, iff_true]
    omega
  · rename_i hn
    rw [Nat.add_one_le_iff, Nat.log2_lt hn]

end DataflowCircuit
