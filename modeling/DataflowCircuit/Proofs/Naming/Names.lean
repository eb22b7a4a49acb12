import DataflowCircuit.Proofs.FunctionalUnit.Builder
import DataflowCircuit.Proofs.Lowering.Bodies
import DataflowCircuit.Text.Digits
import Mathlib.Data.List.Basic

/-!
# Reading Names Back

Costs are stored under normalized keys, in which a unit name and its parameters
are cut at the same mark, the underscore. A key is therefore a row of pieces,
and what a reader can learn from it is what the pieces say.

They say enough. No piece holds an underscore, so cutting a key at its
underscores gives back the pieces it was made of. An operation that computes
something spells a piece like no other: it starts with an operand or with the
name of a unary operation, and it is no number. The position of a member spells
a `p` and a digit. So a key, although its widths have merged with its name, still
tells whether the unit computes anything, and how many outputs it has.

## Main definitions

* `NameToken.piece`: The spelling of a piece without the mark in front.
* `NameToken.Proper`: A piece that lowering can write.
* `keyPieces`: The pieces of a key.
* `isComputingPiece`, `isMemberPiece`: What a piece says.
* `FunctionalUnit.under`: A unit under the name of its template.
* `FunctionalUnit.Spelled`: A unit whose name says what it computes.

## Theorems

* `splitOn_flatMap`: Pieces behind marks are found again.
* `intercalate_inj`: Joined texts fall apart at the separator.
* `keyPieces_key`, `keyPieces_unit`: The pieces of a key and of the key of a unit.
* `unitName_ne_hashedName`: No unit spells a hashed name.
* `Spelled.isForward_eq`, `Spelled.outputs_eq`: What the key of a unit tells.
* `Spelled.under`: A unit is spelled under the name of its template.
-/

namespace DataflowCircuit

section Characters

/-- A digit is a letter or a digit. -/
theorem isAlphanum_of_isDigit (c : Char) (h : c.isDigit = true) : c.isAlphanum = true := by
  simp [Char.isAlphanum, h]

/-- A written number is made of digits. -/
theorem isAlphanum_toDigits (n : Nat) : ∀ c ∈ Nat.toDigits 10 n, c.isAlphanum = true :=
  fun c hc => isAlphanum_of_isDigit c (Text.isDigit_toDigits n c hc)

/-- A written number is the writing of one number only. -/
theorem toDigits_inj (n m : Nat) (h : Nat.toDigits 10 n = Nat.toDigits 10 m) : n = m := by
  have hval := congrArg (Nat.ofDigitChars 10 · 0) h
  simpa only [Nat.ofDigitChars_ten_toDigits] using hval

/-- A number written in base sixteen is made of letters and digits. -/
theorem isAlphanum_toDigits_hex (n : Nat) : ∀ c ∈ Nat.toDigits 16 n, c.isAlphanum = true := by
  have hdigit : ∀ d, d < 16 → (Nat.digitChar d).isAlphanum = true := by decide
  -- Digits are split off at the end, so the number in front is smaller and not a predecessor.
  induction n using Nat.strongRecOn with
  | ind n ih =>
      intro c hc
      rw [Nat.toDigits_eq_if (by decide)] at hc
      by_cases hlt : n < 16
      · rw [if_pos hlt, List.mem_singleton] at hc
        rw [hc]
        exact hdigit n hlt
      · rw [if_neg hlt, List.mem_append, List.mem_singleton] at hc
        rcases hc with hc | hc
        · exact ih (n / 16) (by omega) c hc
        · rw [hc]
          exact hdigit (n % 16) (by omega)

/-- Letters and digits by their codes, in which comparisons are decided. -/
theorem toNat_of_isAlphanum (c : Char) (h : c.isAlphanum = true) :
    (65 ≤ c.toNat ∧ c.toNat ≤ 90) ∨ (97 ≤ c.toNat ∧ c.toNat ≤ 122) ∨
      (48 ≤ c.toNat ∧ c.toNat ≤ 57) := by
  unfold Char.isAlphanum Char.isAlpha Char.isUpper Char.isLower Char.isDigit at h
  simp only [Bool.or_eq_true, Bool.and_eq_true, decide_eq_true_eq, UInt32.le_iff_toNat_le] at h
  have hc : c.toNat = c.val.toNat := rfl
  have hA : 'A'.val.toNat = 65 := rfl
  have hZ : 'Z'.val.toNat = 90 := rfl
  have ha : 'a'.val.toNat = 97 := rfl
  have hz : 'z'.val.toNat = 122 := rfl
  have h0 : '0'.val.toNat = 48 := rfl
  have h9 : '9'.val.toNat = 57 := rfl
  omega

/-- A mark is no letter and no digit. -/
theorem ne_of_isAlphanum (c d : Char) (hc : c.isAlphanum = true) (hd : d.isAlphanum = false) :
    c ≠ d := by
  rintro rfl
  rw [hd] at hc
  cases hc

/-- And it does not occur among them. -/
theorem notMem_of_isAlphanum (mark : Char) (hmark : mark.isAlphanum = false) (cs : List Char)
    (hcs : ∀ c ∈ cs, c.isAlphanum = true) : mark ∉ cs :=
  fun hmem => ne_of_isAlphanum mark mark (hcs mark hmem) hmark rfl

/-- Letters and digits stand in a key as they are. -/
theorem normalizeKeyChar_of_isAlphanum (c : Char) (h : c.isAlphanum = true) :
    normalizeKeyChar c = c := by
  have hnat := toNat_of_isAlphanum c h
  have hne := fun d => ne_of_isAlphanum c d h
  -- No range of blank characters meets those of letters and digits.
  have hblank : Text.isBlank c = false := by
    simp only [Text.isBlank, Text.blankRanges, List.any_cons, List.any_nil, Bool.or_false,
      Bool.or_eq_false_iff, Bool.and_eq_false_iff, decide_eq_false_iff_not]
    omega
  simp [normalizeKeyChar, hblank, hne]

end Characters

section Marks

/-- A text is cut at its first mark in one way. -/
theorem cutFirst_unique (mark : Char) (xs ys us vs : List Char) (hx : mark ∉ xs) (hy : mark ∉ ys)
    (h : xs ++ mark :: us = ys ++ mark :: vs) : xs = ys ∧ us = vs := by
  -- The texts before the mark are read together: they can only end at the same place.
  induction xs generalizing ys with
  | nil =>
      cases ys with
      | nil => exact ⟨rfl, (List.cons.inj h).2⟩
      | cons y ys =>
          have hhead : mark = y := (List.cons.inj h).1
          rw [hhead] at hy
          exact absurd List.mem_cons_self hy
  | cons x xs ih =>
      cases ys with
      | nil =>
          have hhead : x = mark := (List.cons.inj h).1
          rw [hhead] at hx
          exact absurd List.mem_cons_self hx
      | cons y ys =>
          rcases List.cons.inj h with ⟨rfl, htail⟩
          rcases ih ys (fun hm => hx (List.mem_cons_of_mem _ hm))
            (fun hm => hy (List.mem_cons_of_mem _ hm)) htail with ⟨rfl, hrest⟩
          exact ⟨rfl, hrest⟩

/-- A text is cut at its last mark in one way. -/
theorem cutLast_unique (mark : Char) (xs ys us vs : List Char) (hu : mark ∉ us) (hv : mark ∉ vs)
    (h : xs ++ mark :: us = ys ++ mark :: vs) : xs = ys ∧ us = vs := by
  -- Read backwards, the last mark is the first.
  have hrev := congrArg List.reverse h
  simp only [List.reverse_append, List.reverse_cons, List.append_assoc, List.singleton_append]
    at hrev
  rcases cutFirst_unique mark us.reverse vs.reverse xs.reverse ys.reverse
    (by simpa using hu) (by simpa using hv) hrev with ⟨hus, hxs⟩
  exact ⟨List.reverse_injective hxs, List.reverse_injective hus⟩

end Marks

section Pieces

/-- The spelling of a piece without the mark in front. -/
def NameToken.piece : NameToken → List Char
  | .binary op lhs rhs repeated =>
    lhs.toList ++ (op.mnemonic.toList ++ ((if repeated then ['d'] else []) ++ rhs.toList))
  | .unary op arg => op.mnemonic.toList ++ arg.toList
  | .query then_ cond else_ => then_.toList ++ 'q' :: (cond.toList ++ 'e' :: else_.toList)
  | .port => ['p', 'o', 'r', 't']
  | .init value => 'i' :: 'n' :: 'i' :: 't' :: Nat.toDigits 10 value
  | .width bits => Nat.toDigits 10 bits
  | .member position => 'p' :: Nat.toDigits 10 position
  | .hash fingerprint => 'h' :: Nat.toDigits 16 fingerprint

/-- A piece that lowering can write: if it stands for an operation, there is
    one. -/
def NameToken.Proper (t : NameToken) : Prop :=
  t.isOperation = true → ∃ op : Operation, t = op.token

/-- Does a piece stand for an operation that computes something? -/
def NameToken.isComputing : NameToken → Bool
  | .binary .. | .unary .. | .query .. => true
  | _ => false

/-- Is a piece the position of a member? -/
def NameToken.isMember : NameToken → Bool
  | .member _ => true
  | _ => false

/-- Is a text the spelling of an operation that computes something? It is no
    number, and it starts like an operand or a unary operation. -/
def isComputingPiece (cs : List Char) : Bool :=
  cs.any (!·.isDigit) && cs.head?.all fun c => !(c = 'p' || c = 'i' || c = 'h' || c = 'f')

/-- Is a text the spelling of the position of a member? -/
def isMemberPiece : List Char → Bool
  | 'p' :: c :: _ => c.isDigit
  | _ => false

/-- A written whole number is its digits, behind a sign if it is negative. -/
theorem intText_toList (n : Int) : (toString n).toList
    = if n < 0 then '-' :: Nat.toDigits 10 n.natAbs else Nat.toDigits 10 n.natAbs := by
  cases n with
  | ofNat m =>
      rw [if_neg (by simp)]
      exact Nat.toList_repr
  | negSucc m =>
      rw [if_pos (Int.negSucc_lt_zero m)]
      change ("-" ++ Nat.repr (m + 1)).toList = _
      rw [String.toList_append, Nat.toList_repr]
      rfl

/-- A piece is its spelling with the mark in front. -/
theorem NameToken.text_toList (t : NameToken) : t.text.toList = '_' :: t.piece := by
  cases t with
  | binary op lhs rhs repeated => cases repeated <;> simp [text, piece]
  | unary op arg => simp [text, piece]
  | query then_ cond else_ => simp [text, piece]
  | port => rfl
  | init value => simp [text, piece]
  | width bits => simp [text, piece]
  | member position => simp [text, piece]
  | hash fingerprint => simp [text, piece, Text.hex]

/-- The characters of an operand in a name, by its kind. -/
theorem Operand.mnemonic_toList (o : Operand) :
    ∃ n, o.mnemonic.toList = Nat.toDigits 10 n ∨ o.mnemonic.toList = 'r' :: Nat.toDigits 10 n ∨
      o.mnemonic.toList = 'c' :: Nat.toDigits 10 n := by
  cases o with
  | arg slot => exact ⟨slot, Or.inl Nat.toList_repr⟩
  | res index =>
      refine ⟨index, Or.inr (Or.inl ?_)⟩
      rw [mnemonic, String.toList_append, Text.toString_toList]
      rfl
  | const value =>
      refine ⟨value, Or.inr (Or.inr ?_)⟩
      rw [mnemonic, String.toList_append, Text.toString_toList]
      rfl

/-- An operand is spelled with letters and digits. -/
theorem Operand.isAlphanum_mnemonic (o : Operand) :
    ∀ c ∈ o.mnemonic.toList, c.isAlphanum = true := by
  rcases o.mnemonic_toList with ⟨n, h | h | h⟩
  · rw [h]
    exact isAlphanum_toDigits n
  · rw [h, List.forall_mem_cons]
    exact ⟨by decide, isAlphanum_toDigits n⟩
  · rw [h, List.forall_mem_cons]
    exact ⟨by decide, isAlphanum_toDigits n⟩

/-- An operand starts with a digit, an `r` or a `c`. -/
theorem Operand.mnemonic_head (o : Operand) (rest : List Char) :
    ∃ c cs, o.mnemonic.toList ++ rest = c :: cs ∧ (c.isDigit = true ∨ c = 'r' ∨ c = 'c') := by
  rcases o.mnemonic_toList with ⟨n, h | h | h⟩
  · rcases Text.toDigits_head n with ⟨c, cs, hc, hdigit⟩
    exact ⟨c, cs ++ rest, by rw [h, hc]; rfl, Or.inl hdigit⟩
  · exact ⟨'r', Nat.toDigits 10 n ++ rest, by rw [h]; rfl, Or.inr (Or.inl rfl)⟩
  · exact ⟨'c', Nat.toDigits 10 n ++ rest, by rw [h]; rfl, Or.inr (Or.inr rfl)⟩

/-- So is a binary operation. -/
theorem BinOp.isAlphanum_mnemonic (op : BinOp) : ∀ c ∈ op.mnemonic.toList, c.isAlphanum = true := by
  refine List.all_eq_true.mp ?_
  cases op <;> decide

/-- And a unary one. -/
theorem UnOp.isAlphanum_mnemonic (op : UnOp) : ∀ c ∈ op.mnemonic.toList, c.isAlphanum = true := by
  refine List.all_eq_true.mp ?_
  cases op <;> decide

/-- A piece is made of letters and digits. -/
theorem NameToken.isAlphanum_piece (t : NameToken) (ht : t.Proper) :
    ∀ c ∈ t.piece, c.isAlphanum = true := by
  intro c hc
  cases t with
  | binary op lhs rhs repeated =>
      -- The texts of a piece are arbitrary, and only that it was made for an operation bounds
      -- them.
      rcases ht rfl with ⟨o, ho⟩
      cases o with
      | binary op' l r =>
          cases ho
          simp only [piece, List.mem_append] at hc
          rcases hc with hc | hc | hc | hc
          · exact l.isAlphanum_mnemonic c hc
          · exact op.isAlphanum_mnemonic c hc
          -- The letter in front of a repeated operand.
          · by_cases hlr : l = r
            · simp only [hlr, decide_true, if_true, List.mem_singleton] at hc
              rw [hc]
              decide
            · simp [hlr] at hc
          · exact r.isAlphanum_mnemonic c hc
      | _ => cases ho
  | unary op arg =>
      rcases ht rfl with ⟨o, ho⟩
      cases o with
      | unary op' x =>
          cases ho
          simp only [piece, List.mem_append] at hc
          rcases hc with hc | hc
          · exact op.isAlphanum_mnemonic c hc
          · exact x.isAlphanum_mnemonic c hc
      | _ => cases ho
  | query then_ cond else_ =>
      rcases ht rfl with ⟨o, ho⟩
      cases o with
      | select x y z =>
          cases ho
          simp only [piece, List.mem_append, List.mem_cons] at hc
          rcases hc with hc | rfl | hc | rfl | hc
          · exact y.isAlphanum_mnemonic c hc
          · decide
          · exact x.isAlphanum_mnemonic c hc
          · decide
          · exact z.isAlphanum_mnemonic c hc
      | _ => cases ho
  | port => exact List.all_eq_true.mp (by decide) c hc
  | init value =>
      simp only [piece, List.mem_cons] at hc
      rcases hc with rfl | rfl | rfl | rfl | hc
      · decide
      · decide
      · decide
      · decide
      · exact isAlphanum_toDigits value c hc
  | width bits => exact isAlphanum_toDigits bits c hc
  | member position =>
      rcases List.mem_cons.mp hc with rfl | hc
      · decide
      · exact isAlphanum_toDigits position c hc
  | hash fingerprint =>
      rcases List.mem_cons.mp hc with rfl | hc
      · decide
      · exact isAlphanum_toDigits_hex fingerprint c hc

/-- A text that starts like an operand and is no number computes something. -/
theorem isComputingPiece_of_operand (o : Operand) (rest : List Char)
    (hrest : rest.any (!·.isDigit) = true) :
    isComputingPiece (o.mnemonic.toList ++ rest) = true := by
  rcases o.mnemonic_head rest with ⟨c, cs, hcs, hhead⟩
  have hany : (o.mnemonic.toList ++ rest).any (!·.isDigit) = true := by
    rw [List.any_append, hrest, Bool.or_true]
  rw [hcs] at hany ⊢
  unfold isComputingPiece
  rw [hany, List.head?_cons, Option.all_some, Bool.true_and]
  -- An operand starts with none of the letters that other pieces start with.
  rcases hhead with hdigit | rfl | rfl
  · have hne : ∀ d : Char, d.isDigit = false → c ≠ d := by
      rintro d hd rfl
      rw [hd] at hdigit
      cases hdigit
    simp [hne]
  · decide
  · decide

/-- A number computes nothing. -/
theorem isComputingPiece_toDigits (n : Nat) : isComputingPiece (Nat.toDigits 10 n) = false := by
  have hany : (Nat.toDigits 10 n).any (!·.isDigit) = false := by
    rw [List.any_eq_false]
    intro c hc
    simp [Text.isDigit_toDigits n c hc]
  unfold isComputingPiece
  rw [hany, Bool.false_and]

/-- The position of a member starts with a `p`. -/
theorem isMemberPiece_of_head (c : Char) (cs : List Char) (h : c ≠ 'p') :
    isMemberPiece (c :: cs) = false := by
  unfold isMemberPiece
  split
  · rename_i d rest heq
    exact absurd (List.cons.inj heq).1 h
  · rfl

/-- A number is not the position of a member. -/
theorem isMemberPiece_toDigits (n : Nat) : isMemberPiece (Nat.toDigits 10 n) = false := by
  rcases Text.toDigits_head n with ⟨c, cs, hcs, hdigit⟩
  rw [hcs]
  refine isMemberPiece_of_head c cs ?_
  rintro rfl
  cases hdigit

/-- What starts with an operand is not the position of a member. -/
theorem isMemberPiece_of_operand (o : Operand) (rest : List Char) :
    isMemberPiece (o.mnemonic.toList ++ rest) = false := by
  rcases o.mnemonic_head rest with ⟨c, cs, hcs, hhead⟩
  rw [hcs]
  refine isMemberPiece_of_head c cs ?_
  rintro rfl
  rcases hhead with h | h | h <;> cases h

/-- A piece says whether it computes something. -/
theorem NameToken.isComputingPiece_piece (t : NameToken) (ht : t.Proper) :
    isComputingPiece t.piece = t.isComputing := by
  cases t with
  | binary op lhs rhs repeated =>
      rcases ht rfl with ⟨o, ho⟩
      cases o with
      | binary op' l r =>
          cases ho
          refine isComputingPiece_of_operand l _ ?_
          -- The operation in the middle is what makes this piece no number.
          have hop : op.mnemonic.toList.any (!·.isDigit) = true := by cases op <;> decide
          rw [List.any_append, hop, Bool.true_or]
      | _ => cases ho
  | unary op arg =>
      cases op <;> simp [piece, isComputingPiece, UnOp.mnemonic, isComputing]
  | query then_ cond else_ =>
      rcases ht rfl with ⟨o, ho⟩
      cases o with
      | select x y z =>
          cases ho
          exact isComputingPiece_of_operand y _ rfl
      | _ => cases ho
  | port => decide
  | init value => simp [piece, isComputingPiece, isComputing]
  | width bits => exact isComputingPiece_toDigits bits
  | member position => simp [piece, isComputingPiece, isComputing]
  | hash fingerprint => simp [piece, isComputingPiece, isComputing]

/-- A piece says whether it is the position of a member. -/
theorem NameToken.isMemberPiece_piece (t : NameToken) (ht : t.Proper) :
    isMemberPiece t.piece = t.isMember := by
  cases t with
  | binary op lhs rhs repeated =>
      rcases ht rfl with ⟨o, ho⟩
      cases o with
      | binary op' l r =>
          cases ho
          exact isMemberPiece_of_operand l _
      | _ => cases ho
  | unary op arg => cases op <;> exact isMemberPiece_of_head _ _ (by decide)
  | query then_ cond else_ =>
      rcases ht rfl with ⟨o, ho⟩
      cases o with
      | select x y z =>
          cases ho
          exact isMemberPiece_of_operand y _
      | _ => cases ho
  | port => decide
  | init value => exact isMemberPiece_of_head _ _ (by decide)
  | width bits => exact isMemberPiece_toDigits bits
  | member position =>
      -- Behind the `p` there is always a digit.
      rcases Text.toDigits_head position with ⟨c, cs, hcs, hdigit⟩
      rw [piece, hcs]
      exact hdigit
  | hash fingerprint => exact isMemberPiece_of_head _ _ (by decide)

end Pieces

section Keys

/-- The pieces of a key as it stands in the table of costs. -/
def keyPieces (key : String) : List (List Char) :=
  (normalizeKey key).toList.splitOn '_'

/-- Pieces behind marks are found again. -/
theorem splitOn_flatMap (mark : Char) (first : List Char) (rest : List (List Char))
    (hfirst : mark ∉ first) (hrest : ∀ cs ∈ rest, mark ∉ cs) :
    (first ++ rest.flatMap (mark :: ·)).splitOn mark = first :: rest := by
  induction rest generalizing first with
  | nil =>
      rw [List.flatMap_nil, List.append_nil]
      exact List.splitOn_eq_singleton hfirst
  | cons cs rest ih =>
      rw [List.forall_mem_cons] at hrest
      rw [List.flatMap_cons, List.cons_append, List.splitOn_append_cons_self,
        List.splitOn_eq_singleton hfirst, ih cs hrest.1 hrest.2]
      rfl

/-- Joined texts fall apart at the separator. -/
theorem intercalate_inj (mark : Char) (sep : String) (hsep : sep.toList = [mark])
    (xs ys : List String) (hxs : xs ≠ []) (hys : ys ≠ [])
    (hx : ∀ t ∈ xs, mark ∉ t.toList) (hy : ∀ t ∈ ys, mark ∉ t.toList)
    (h : String.intercalate sep xs = String.intercalate sep ys) : xs = ys := by
  -- Cutting undoes joining, so both lists are what the one text is cut into.
  have hsplit : ∀ ts : List String, ts ≠ [] → (∀ t ∈ ts, mark ∉ t.toList) →
      (String.intercalate sep ts).toList.splitOn mark = ts.map String.toList := by
    intro ts hts hmarks
    rw [String.toList_intercalate, hsep]
    refine List.splitOn_intercalate mark ?_ (by simpa using hts)
    intro cs hcs
    rcases List.mem_map.mp hcs with ⟨t, ht, rfl⟩
    exact hmarks t ht
  have hlists : xs.map String.toList = ys.map String.toList := by
    rw [← hsplit xs hxs hx, ← hsplit ys hys hy, h]
  exact List.map_injective_iff.mpr (fun a b hab => String.toList_injective hab) hlists

/-- A unit name is its pieces with a mark in front of each. -/
theorem unitName_toList (ts : List NameToken) :
    (unitName ts).toList = ['f', 'u', 'n', 'c'] ++ (ts.map NameToken.piece).flatMap ('_' :: ·) := by
  rw [unitName, String.toList_append, String.toList_join, List.flatMap_map, List.flatMap_map]
  simp only [NameToken.text_toList]
  rfl

/-- A unit name falls apart into its pieces. -/
theorem splitOn_unitName (ts : List NameToken) (hts : ∀ t ∈ ts, t.Proper) :
    (unitName ts).toList.splitOn '_' = ['f', 'u', 'n', 'c'] :: ts.map NameToken.piece := by
  rw [unitName_toList]
  refine splitOn_flatMap '_' _ _ (by decide) fun cs hcs => ?_
  rcases List.mem_map.mp hcs with ⟨t, ht, rfl⟩
  exact notMem_of_isAlphanum '_' (by decide) _ (t.isAlphanum_piece (hts t ht))

/-- A unit name is made of letters, digits and marks. -/
theorem unitName_chars (ts : List NameToken) (hts : ∀ t ∈ ts, t.Proper) :
    ∀ c ∈ (unitName ts).toList, c.isAlphanum = true ∨ c = '_' := by
  intro c hc
  rw [unitName_toList, List.mem_append, List.mem_flatMap] at hc
  rcases hc with hc | ⟨cs, hcs, hc⟩
  · exact Or.inl (List.all_eq_true.mp (by decide) c hc)
  · rcases List.mem_map.mp hcs with ⟨t, ht, rfl⟩
    rcases List.mem_cons.mp hc with rfl | hc
    · exact Or.inr rfl
    · exact Or.inl (t.isAlphanum_piece (hts t ht) c hc)

/-- Parameters in the table of costs: the commas between them are marks. -/
theorem normalize_params (n : Nat) (ns : List Nat) :
    (String.intercalate "," ((n :: ns).map toString)).toList.map normalizeKeyChar
      = Nat.toDigits 10 n ++ (ns.map (Nat.toDigits 10)).flatMap ('_' :: ·) := by
  have hdigits : ∀ k, (Nat.toDigits 10 k).map normalizeKeyChar = Nat.toDigits 10 k := by
    intro k
    conv_rhs => rw [← List.map_id (Nat.toDigits 10 k)]
    exact List.map_congr_left fun c hc =>
      normalizeKeyChar_of_isAlphanum c (isAlphanum_toDigits k c hc)
  -- The first parameter is apart, since no comma stands in front of it.
  induction ns generalizing n with
  | nil =>
      rw [List.map_singleton, String.intercalate_singleton, Text.toString_toList, hdigits]
      exact (List.append_nil _).symm
  | cons m ns ih =>
      rw [List.map_cons, List.map_cons, String.intercalate_cons_cons, ← List.map_cons,
        String.toList_append, String.toList_append, Text.toString_toList, List.map_append,
        List.map_append, hdigits, ih m, List.append_assoc]
      rfl

/-- The pieces of a key: those of the template name, the parameters, and what is
    behind the closing bracket. -/
theorem keyPieces_key (name : String) (first : List Char) (rest : List (List Char))
    (hname : name.toList = first ++ rest.flatMap ('_' :: ·))
    (hfirst : ∀ c ∈ first, c.isAlphanum = true)
    (hrest : ∀ cs ∈ rest, ∀ c ∈ cs, c.isAlphanum = true) (n : Nat) (ns : List Nat) :
    keyPieces (name ++ "<" ++ String.intercalate "," ((n :: ns).map toString) ++ ">")
      = first :: (rest ++ (n :: ns).map (Nat.toDigits 10) ++ [[]]) := by
  -- The name keeps all its characters, marks included.
  have hkept : ∀ c ∈ name.toList, normalizeKeyChar c = c := by
    intro c hc
    rw [hname, List.mem_append, List.mem_flatMap] at hc
    rcases hc with hc | ⟨cs, hcs, hc⟩
    · exact normalizeKeyChar_of_isAlphanum c (hfirst c hc)
    · rcases List.mem_cons.mp hc with rfl | hc
      · decide
      · exact normalizeKeyChar_of_isAlphanum c (hrest cs hcs c hc)
  have hnormal : name.toList.map normalizeKeyChar = name.toList := by
    conv_rhs => rw [← List.map_id name.toList]
    exact List.map_congr_left hkept
  have htext : (normalizeKey
      (name ++ "<" ++ String.intercalate "," ((n :: ns).map toString) ++ ">")).toList
        = first ++ (rest ++ (n :: ns).map (Nat.toDigits 10) ++ [[]]).flatMap ('_' :: ·) := by
    rw [normalizeKey, String.toList_ofList, String.toList_append, String.toList_append,
      String.toList_append, List.map_append, List.map_append, List.map_append, hnormal, hname,
      normalize_params]
    simp [normalizeKeyChar]
  unfold keyPieces
  rw [htext]
  -- No piece holds a mark, so the marks are exactly the cuts.
  refine splitOn_flatMap '_' _ _ (notMem_of_isAlphanum '_' (by decide) first hfirst)
    fun cs hcs => ?_
  have halnum : ∀ c ∈ cs, c.isAlphanum = true := by
    rw [List.mem_append, List.mem_append] at hcs
    rcases hcs with (hcs | hcs) | hcs
    · exact hrest cs hcs
    · rcases List.mem_map.mp hcs with ⟨k, _, rfl⟩
      exact isAlphanum_toDigits k
    · rw [List.mem_singleton.mp hcs]
      exact fun c hc => absurd hc List.not_mem_nil
  exact notMem_of_isAlphanum '_' (by decide) cs halnum

/-- The pieces of the key of a unit. -/
theorem keyPieces_unit (ts : List NameToken) (hts : ∀ t ∈ ts, t.Proper) (n : Nat)
    (ns : List Nat) :
    keyPieces (unitName ts ++ "<" ++ String.intercalate "," ((n :: ns).map toString) ++ ">")
      = ['f', 'u', 'n', 'c'] ::
          (ts.map NameToken.piece ++ (n :: ns).map (Nat.toDigits 10) ++ [[]]) := by
  refine keyPieces_key (unitName ts) _ _ (unitName_toList ts) (List.all_eq_true.mp (by decide))
    (fun cs hcs => ?_) n ns
  rcases List.mem_map.mp hcs with ⟨t, ht, rfl⟩
  exact t.isAlphanum_piece (hts t ht)

end Keys

section HashedNames

/-- Is a piece one that a unit name ends in? -/
def NameToken.endsName : NameToken → Bool
  | .width _ | .member _ => true
  | _ => false

/-- The mark occurs once in the end of a hashed name, in front of its `h`. -/
theorem underscore_notMem_hash (n : Nat) : '_' ∉ 'h' :: Nat.toDigits 16 n :=
  notMem_of_isAlphanum '_' (by decide) _
    (List.forall_mem_cons.mpr ⟨by decide, isAlphanum_toDigits_hex n⟩)

/-- A hashed name is the name and a fingerprint behind a mark. -/
theorem hashedName_toList (name : String) (fp : UInt64) :
    (Cache.hashedName name fp).toList = name.toList ++ '_' :: 'h' :: Nat.toDigits 16 fp.toNat := by
  have hhex : (Text.hex fp.toNat).toList = Nat.toDigits 16 fp.toNat := String.toList_ofList
  rw [Cache.hashedName, String.toList_append, NameToken.text, String.toList_append, hhex]
  rfl

/-- No unit spells a hashed name: one ends in a width or a position and the
    other in a fingerprint. -/
theorem unitName_ne_hashedName (ts : List NameToken) (t : NameToken) (name : String)
    (fp : UInt64) (ht : t.endsName = true) :
    unitName (ts ++ [t]) ≠ Cache.hashedName name fp := by
  intro h
  -- The last piece of a unit name, and why a fingerprint is no such piece.
  have htext : ∃ us, t.text.toList = '_' :: us ∧ '_' ∉ us ∧ us.head? ≠ some 'h' := by
    cases t with
    | width bits =>
        refine ⟨Nat.toDigits 10 bits, ?_, Nat.underscore_not_in_toDigits, ?_⟩
        · rw [NameToken.text, String.toList_append, Nat.toString_eq_repr, Nat.toList_repr]
          rfl
        · intro hhead
          have hmem := List.mem_of_mem_head? hhead
          have hdigit := Nat.isDigit_of_mem_toDigits (by decide) (by decide) hmem
          exact absurd hdigit (by decide)
    | member position =>
        refine ⟨'p' :: Nat.toDigits 10 position, ?_, ?_, ?_⟩
        · rw [NameToken.text, String.toList_append, Nat.toString_eq_repr, Nat.toList_repr]
          rfl
        · rw [List.mem_cons]
          intro hmem
          rcases hmem with hmem | hmem
          · exact absurd hmem (by decide)
          · exact Nat.underscore_not_in_toDigits hmem
        · rw [List.head?_cons, ne_eq, Option.some.injEq]
          decide
    | _ => exact absurd ht (by simp [NameToken.endsName])
  rcases htext with ⟨us, hus, hnone, hhead⟩
  have hjoin : unitName (ts ++ [t]) = unitName ts ++ t.text := by
    unfold unitName
    rw [List.map_append, String.join_append, String.append_assoc]
    simp [String.join]
  have hlist := congrArg String.toList h
  rw [hjoin, String.toList_append, hus, hashedName_toList] at hlist
  -- Both texts are cut at their last mark, and what is behind it would be the same.
  have htail := cutLast_unique '_' _ _ us ('h' :: Nat.toDigits 16 fp.toNat) hnone ?_ hlist
  · rw [htail.2] at hhead
    exact hhead rfl
  · exact underscore_notMem_hash fp.toNat

end HashedNames

section Spelled

/-- A unit whose name says what it computes: its pieces list the operations of
    the statements in order, and a member for each output of a cluster. A unit
    that is no cluster has one output. -/
structure FunctionalUnit.Spelled (fu : FunctionalUnit) : Prop where
  stated : fu.statements ≠ []
  name : ∃ ts, fu.name = unitName ts ∧
    ts.filter NameToken.isOperation = fu.statements.map (fun st => st.op.token) ∧
    fu.outputs.length = max 1 (ts.countP NameToken.isMember)

/-- A unit under the name that its template has if `T` is the table of
    bodies. -/
def FunctionalUnit.under (T : Bodies) (fu : FunctionalUnit) : FunctionalUnit :=
  { fu with name := T.templateName fu.name (Text.fingerprint fu.body) }

variable {fu : FunctionalUnit}

/-- The pieces of a spelled unit are ones that lowering can write. -/
theorem FunctionalUnit.Spelled.tokens (h : fu.Spelled) :
    ∃ ts : List NameToken, fu.name = unitName ts ∧ (∀ t ∈ ts, t.Proper) ∧
      ts.filter NameToken.isOperation = fu.statements.map (fun st => st.op.token) ∧
      fu.outputs.length = max 1 (ts.countP NameToken.isMember) := by
  rcases h.name with ⟨ts, hname, hops, houts⟩
  refine ⟨ts, hname, fun t ht hop => ?_, hops, houts⟩
  have hmem : t ∈ ts.filter NameToken.isOperation := List.mem_filter.mpr ⟨ht, hop⟩
  rw [hops] at hmem
  rcases List.mem_map.mp hmem with ⟨st, _, rfl⟩
  exact ⟨st.op, rfl⟩

/-- A unit with a statement has a parameter. -/
theorem FunctionalUnit.Spelled.params_ne_nil (h : fu.Spelled) : fu.params ≠ [] := by
  intro hparams
  unfold FunctionalUnit.params at hparams
  simp only [List.append_eq_nil_iff, List.map_eq_nil_iff] at hparams
  exact h.stated hparams.2

/-- The pieces of the key of a spelled unit. -/
theorem FunctionalUnit.Spelled.pieces (h : fu.Spelled) :
    ∃ ts : List NameToken, (∀ t ∈ ts, t.Proper) ∧
      ts.filter NameToken.isOperation = fu.statements.map (fun st => st.op.token) ∧
      fu.outputs.length = max 1 (ts.countP NameToken.isMember) ∧
      keyPieces fu.key = ['f', 'u', 'n', 'c'] ::
        (ts.map NameToken.piece ++ fu.params.map (Nat.toDigits 10) ++ [[]]) := by
  rcases h.tokens with ⟨ts, hname, hproper, hops, houts⟩
  refine ⟨ts, hproper, hops, houts, ?_⟩
  -- The pieces of a key need a parameter, which a statement provides.
  cases hparams : fu.params with
  | nil => exact absurd hparams h.params_ne_nil
  | cons n ns =>
      rw [FunctionalUnit.key, hname, hparams]
      exact keyPieces_unit ts hproper n ns

/-- The key of a unit tells whether the unit computes something. -/
theorem FunctionalUnit.Spelled.isForward_eq (h : fu.Spelled) :
    fu.isForward = !(keyPieces fu.key).any isComputingPiece := by
  rcases h.pieces with ⟨ts, hproper, hops, _, hpieces⟩
  -- The widths in the key are numbers, and compute nothing.
  have hparams : (fu.params.map (Nat.toDigits 10)).any isComputingPiece = false := by
    rw [List.any_map, List.any_eq_false]
    intro n _
    rw [Function.comp_apply, isComputingPiece_toDigits]
    exact Bool.false_ne_true
  have hnames : (ts.map NameToken.piece).any isComputingPiece = ts.any NameToken.isComputing := by
    rw [List.any_map, Bool.eq_iff_iff, List.any_eq_true, List.any_eq_true]
    refine exists_congr fun t => and_congr_right fun ht => ?_
    rw [Function.comp_apply, t.isComputingPiece_piece (hproper t ht)]
  rw [hpieces, List.any_cons, List.any_append, List.any_append, hparams, hnames]
  -- Only operations compute, and the operations of the name are the statements.
  have hfilter : ts.any NameToken.isComputing
      = (ts.filter NameToken.isOperation).any NameToken.isComputing := by
    rw [List.any_filter]
    refine congrArg ts.any (funext fun t => ?_)
    cases t <;> rfl
  have hops' : (fu.statements.map (fun st => st.op.token)).any NameToken.isComputing
      = fu.statements.any fun st => !st.op.isForward := by
    rw [List.any_map]
    refine congrArg fu.statements.any (funext fun st => ?_)
    rw [Function.comp_apply]
    cases st.op <;> rfl
  rw [hfilter, hops, hops']
  unfold FunctionalUnit.isForward
  rw [List.all_eq_not_any_not]
  simp [isComputingPiece]

/-- The key of a unit tells how many outputs it has. -/
theorem FunctionalUnit.Spelled.outputs_eq (h : fu.Spelled) :
    fu.outputs.length = max 1 ((keyPieces fu.key).countP isMemberPiece) := by
  rcases h.pieces with ⟨ts, hproper, _, houts, hpieces⟩
  have hparams : (fu.params.map (Nat.toDigits 10)).countP isMemberPiece = 0 := by
    rw [List.countP_eq_zero]
    intro cs hcs
    rcases List.mem_map.mp hcs with ⟨n, _, rfl⟩
    rw [isMemberPiece_toDigits]
    exact Bool.false_ne_true
  have hnames : (ts.map NameToken.piece).countP isMemberPiece = ts.countP NameToken.isMember := by
    rw [List.countP_map]
    refine List.countP_congr fun t ht => ?_
    rw [Function.comp_apply, t.isMemberPiece_piece (hproper t ht)]
  have hfirst : isMemberPiece ['f', 'u', 'n', 'c'] = false := by decide
  have hlast : [([] : List Char)].countP isMemberPiece = 0 := by decide
  rw [houts, hpieces, List.countP_cons, List.countP_append, List.countP_append, hparams, hnames,
    hlast, hfirst]
  simp

/-- A unit name starts with `func` and holds no bracket. -/
theorem FunctionalUnit.Spelled.name_toList (h : fu.Spelled) :
    (∃ cs, fu.name.toList = 'f' :: 'u' :: cs) ∧ '<' ∉ fu.name.toList := by
  rcases h.tokens with ⟨ts, hname, hproper, _, _⟩
  rw [hname]
  refine ⟨⟨_, unitName_toList ts⟩, fun hmem => ?_⟩
  rcases unitName_chars ts hproper '<' hmem with h | h <;> exact absurd h (by decide)

/-- A unit is still spelled under a hashed name, which has one piece more. -/
theorem FunctionalUnit.Spelled.under (h : fu.Spelled) (T : Bodies) : (fu.under T).Spelled := by
  unfold FunctionalUnit.under
  rcases h.name with ⟨ts, hname, hops, houts⟩
  refine ⟨h.stated, ?_⟩
  by_cases hT : T.lookup fu.name = some (Text.fingerprint fu.body)
  · refine ⟨ts, ?_, hops, houts⟩
    simp only [Bodies.templateName, if_pos hT]
    exact hname
  · refine ⟨ts ++ [.hash (Text.fingerprint fu.body).toNat], ?_, ?_, ?_⟩
    · simp only [Bodies.templateName, if_neg hT]
      rw [Cache.hashedName, hname]
      simp [unitName, String.append_assoc]
    · rw [List.filter_append, hops]
      exact List.append_nil _
    · rw [List.countP_append, houts]
      rfl

end Spelled

end DataflowCircuit
