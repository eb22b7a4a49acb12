/-!
# Digits

Whole numbers are read from digit strings in base two, ten and sixteen and
written in base ten and sixteen. Reading takes the digits as already
recognised: each reader checks the characters first and its range after.

## Main definitions

* `digitValue`: The value of a digit, up to base sixteen.
* `ofDigits`: The number a digit string denotes in a base.
* `hex`: A number in lower-case base sixteen.
* `hex16`: The same, padded to sixteen digits.
* `padLeft`: A text right-aligned in a column.

## Theorems

* `ofDigits_toDigits`: A written number denotes itself.
* `isDigit_toDigits`, `toDigits_head`, `toString_toList`: What is written for a
  number.
-/

namespace DataflowCircuit

namespace Text

/-- The value of a digit of a base up to sixteen. Other characters count as
    zero, and no reader hands one over. -/
def digitValue (c : Char) : Nat :=
  if '0' ≤ c && c ≤ '9' then c.toNat - '0'.toNat
  else if 'a' ≤ c && c ≤ 'f' then c.toNat - 'a'.toNat + 10
  else if 'A' ≤ c && c ≤ 'F' then c.toNat - 'A'.toNat + 10
  else 0

/-- Is `c` a digit of base sixteen? -/
def isHexDigit (c : Char) : Bool :=
  c.isDigit || ('a' ≤ c && c ≤ 'f') || ('A' ≤ c && c ≤ 'F')

/-- Is `c` a digit of base two? -/
def isBinDigit (c : Char) : Bool :=
  c = '0' || c = '1'

/-- The number that the digits `cs` denote in base `base`. -/
def ofDigits (base : Nat) (cs : List Char) : Nat :=
  cs.foldl (fun n c => n * base + digitValue c) 0

/-- The number that a written number denotes. -/
theorem ofDigits_toDigits (base n : Nat) (hlow : 1 < base) (hhigh : base ≤ 16) :
    ofDigits base (Nat.toDigits base n) = n := by
  have hdigit : ∀ d, d < 16 → digitValue (Nat.digitChar d) = d := by decide
  induction n using Nat.strongRecOn with
  | ind n ih =>
      rw [Nat.toDigits_eq_if hlow]
      by_cases hlt : n < base
      · rw [if_pos hlt]
        change 0 * base + digitValue (Nat.digitChar n) = n
        rw [hdigit n (by omega), Nat.zero_mul, Nat.zero_add]
      · have hmod := Nat.mod_lt n (Nat.lt_of_succ_lt hlow)
        rw [if_neg hlt, ofDigits, List.foldl_append]
        change ofDigits base (Nat.toDigits base (n / base)) * base
          + digitValue (Nat.digitChar (n % base)) = n
        rw [ih (n / base) (Nat.div_lt_self (by omega) hlow), hdigit (n % base) (by omega)]
        exact Nat.div_add_mod' n base

/-- A written number is made of digits. -/
theorem isDigit_toDigits (n : Nat) : ∀ c ∈ Nat.toDigits 10 n, c.isDigit = true :=
  fun _ hc => Nat.isDigit_of_mem_toDigits (by decide) (by decide) hc

/-- A written number has a first digit. -/
theorem toDigits_head (n : Nat) :
    ∃ c cs, Nat.toDigits 10 n = c :: cs ∧ c.isDigit = true := by
  cases h : Nat.toDigits 10 n with
  | nil => exact absurd h Nat.toDigits_ne_nil
  | cons c cs =>
      refine ⟨c, cs, rfl, isDigit_toDigits n c ?_⟩
      rw [h]
      exact List.mem_cons_self

/-- A number is written as its digits. -/
theorem toString_toList (n : Nat) : (toString n).toList = Nat.toDigits 10 n :=
  Nat.toList_repr

/-- A text right-aligned in a column of `width` characters. -/
def padLeft (width : Nat) (fill : Char) (s : String) : String :=
  String.ofList (List.replicate (width - s.length) fill) ++ s

/-- The number in lower-case base sixteen. -/
def hex (n : Nat) : String :=
  String.ofList (Nat.toDigits 16 n)

/-- The number in lower-case base sixteen, padded to sixteen digits. -/
def hex16 (n : Nat) : String :=
  padLeft 16 '0' (hex n)

end Text

end DataflowCircuit
