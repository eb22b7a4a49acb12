/-!
# UTF-8

Input files are octets. Reading one as text either gives the characters or
says where the first malformed sequence starts and how long it is, because
the diagnostic for an unreadable input names both.

A character starts with an octet that fixes how many continuation octets
follow, and the range of the first of those: the narrowed ranges exclude
overlong forms, surrogates and values beyond the last code point. A sequence
that breaks the rule is as long as the part that still obeyed it, and at
least one octet; a sequence that the end of the input cuts short has no
length.

## Main definitions

* `Fault`: Where decoding stopped, and the length of the bad sequence.
* `Fault.message`: The fault in words.
* `leadRange`: The continuation rule of a first octet.
* `decode`: The characters of an octet sequence, or the first fault.
-/

namespace DataflowCircuit

namespace Utf8

/-- The first malformed sequence of an input: the index of its first octet and
    the number of octets in it, or `none` if the input ends inside it. -/
structure Fault where
  index : Nat
  length : Option Nat
  deriving DecidableEq, Repr

/-- The fault in words. -/
def Fault.message (f : Fault) : String :=
  match f.length with
  | some n => s!"invalid utf-8 sequence of {n} bytes from index {f.index}"
  | none => s!"incomplete utf-8 byte sequence from index {f.index}"

/-- What a first octet announces: the number of continuation octets, and the
    least and greatest value of the first of them. -/
def leadRange (b : Nat) : Option (Nat × Nat × Nat) :=
  if 0xC2 ≤ b && b ≤ 0xDF then some (1, 0x80, 0xBF)
  else if b == 0xE0 then some (2, 0xA0, 0xBF)
  else if b == 0xED then some (2, 0x80, 0x9F)
  else if 0xE1 ≤ b && b ≤ 0xEF then some (2, 0x80, 0xBF)
  else if b == 0xF0 then some (3, 0x90, 0xBF)
  else if 0xF1 ≤ b && b ≤ 0xF3 then some (3, 0x80, 0xBF)
  else if b == 0xF4 then some (3, 0x80, 0x8F)
  else none

/-- The payload of a first octet announcing `n` continuation octets. -/
def leadBits (n b : Nat) : Nat :=
  b % (1 <<< (6 - n))

/-- Where decoding stands between two octets: between characters, or inside
    one that started at `start` and has taken `taken` octets so far, owes
    `owed` more of which the next lies between `low` and `high`, and has
    gathered `value`. -/
inductive State where
  | between
  | inside (start taken owed low high value : Nat)

/-- Decode octets from position `index` on. -/
def decodeFrom (index : Nat) (state : State) : List UInt8 → Except Fault (List Char)
  | [] =>
    match state with
    | .between => .ok []
    | .inside start .. => .error ⟨start, none⟩
  | octet :: rest =>
    let b := octet.toNat
    match state with
    | .between =>
      if b < 0x80 then do
        return Char.ofNat b :: (← decodeFrom (index + 1) .between rest)
      else
        match leadRange b with
        | none => .error ⟨index, some 1⟩
        | some (n, low, high) =>
          decodeFrom (index + 1) (.inside index 1 n low high (leadBits n b)) rest
    | .inside start taken owed low high value =>
      if low ≤ b && b ≤ high then
        let value := value * 64 + b % 64
        if owed ≤ 1 then do
          return Char.ofNat value :: (← decodeFrom (index + 1) .between rest)
        else
          decodeFrom (index + 1) (.inside start (taken + 1) (owed - 1) 0x80 0xBF value) rest
      else .error ⟨start, some taken⟩

/-- The characters of an octet sequence, or its first malformed sequence. -/
def decode (octets : List UInt8) : Except Fault (List Char) :=
  decodeFrom 0 .between octets

end Utf8

end DataflowCircuit
