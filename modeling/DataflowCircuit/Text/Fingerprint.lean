/-!
# Fingerprints

Two units that would share a template name are told apart by the fingerprint
of their bodies, and the fingerprint ends up in names that are kept in a
metrics file between runs. It therefore has to be the same on every machine,
so it is a fixed function of the octets of the text: the 64-bit Fowler, Noll
and Vo hash in its xor-then-multiply order.

## Main definitions

* `fingerprint`: The hash of a text.
* `fingerprintChars`: The hash of characters.

## Theorems

* `fingerprint_eq`: The hash of a text is that of its characters.
-/

namespace DataflowCircuit

namespace Text

/-- The hash of the empty text. -/
def fingerprintBasis : UInt64 := 0xcbf29ce484222325

/-- The multiplier applied after each octet. -/
def fingerprintPrime : UInt64 := 0x100000001b3

/-- The 64-bit fingerprint of the octets of `s`. -/
def fingerprint (s : String) : UInt64 :=
  s.toUTF8.toList.foldl (fun h b => (h ^^^ b.toUInt64) * fingerprintPrime) fingerprintBasis

/-- The hash of the octets of characters. -/
def fingerprintChars (cs : List Char) : UInt64 :=
  (cs.flatMap String.utf8EncodeChar).foldl (fun h b => (h ^^^ b.toUInt64) * fingerprintPrime)
    fingerprintBasis

/-- Octets are listed from a position on, behind those that were listed before. -/
theorem toList_loop (octets : ByteArray) (i : Nat) (listed : List UInt8) :
    ByteArray.toList.loop octets i listed = listed.reverse ++ octets.data.toList.drop i := by
  fun_induction ByteArray.toList.loop octets i listed with
  | case1 i listed h ih =>
      have hget : octets.get! i = octets.data.toList[i] := getElem!_pos octets.data i h
      rw [ih, List.reverse_cons, List.append_assoc, List.drop_eq_getElem_cons h, hget]
      rfl
  | case2 i listed h =>
      rw [List.drop_eq_nil_of_le (Nat.le_of_not_lt h), List.append_nil]

/-- The fingerprint of a text is the hash of its characters. -/
theorem fingerprint_eq (s : String) : fingerprint s = fingerprintChars s.toList := by
  have hoctets : s.toUTF8.toList = s.toList.flatMap String.utf8EncodeChar := by
    change ByteArray.toList.loop s.toByteArray 0 [] = _
    rw [toList_loop, ← String.utf8Encode_toList, List.utf8Encode, List.toList_data_toByteArray]
    rfl
  rw [fingerprint, hoctets, fingerprintChars]

end Text

end DataflowCircuit
