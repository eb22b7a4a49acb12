import DataflowCircuit.Proofs.Source.Reading

/-!
# Reading Words

Numbers and names are read back as they were written. Words are read as far
as they go, so each is read back only in front of something that cannot
continue it. `EndsWord` is the condition that fits all of them.

A channel name is a declared path, followed by an index if the channel belongs
to an array. Only the last segment of such a name can carry an index, although
a reference could have one after every segment, with zeros in front. What is
said of names that stand in a text is therefore said of references.

## Main definitions

* `EndsWord`: No word goes on here.
* `Dotted`: Segments with points between them.
* `IsIdent`, `IsPath`, `IsName`: Identifiers, declared paths and the names of
  channels.
* `IsReference`: What may stand where a channel is used.

## Theorems

* `bitwidth_run`, `numLit_run`: Numbers are read back.
* `identifier_run`, `path_run`, `reference_run`: Names are read back.
-/

namespace DataflowCircuit

namespace Source

open DataflowCircuit.Source.Parser

/-- No word goes on with `rest`. -/
def EndsWord (rest : List Char) : Prop :=
  ∀ c ∈ rest.head?, isTail c = false ∧ c ≠ '.' ∧ c ≠ '['

/-- A list with a head satisfies what its head does. -/
theorem head_cons {P : Char → Prop} (c : Char) (rest : List Char) (h : P c) :
    ∀ d ∈ (c :: rest).head?, P d := by
  intro d hd
  cases hd
  exact h

theorem endsWord_blank (rest : List Char) : EndsWord (' ' :: rest) :=
  head_cons ' ' rest (by decide)

theorem endsWord_semicolon (rest : List Char) : EndsWord (';' :: rest) :=
  head_cons ';' rest (by decide)

/-- A run of characters stops where the first other character stands. -/
theorem span_append (p : Char → Bool) (w rest : List Char) (hw : ∀ c ∈ w, p c = true)
    (hrest : ∀ c ∈ rest.head?, p c = false) :
    (w ++ rest).takeWhile p = w ∧ (w ++ rest).dropWhile p = rest := by
  rw [List.takeWhile_append_of_pos hw, List.dropWhile_append_of_pos hw]
  cases rest with
  | nil => exact ⟨List.append_nil w, rfl⟩
  | cons c rest =>
      have hc : ¬ p c = true := by
        rw [hrest c rfl]
        exact Bool.false_ne_true
      rw [List.takeWhile_cons_of_neg hc, List.dropWhile_cons_of_neg hc, List.append_nil]
      exact ⟨rfl, rfl⟩

/-- A word that is not empty is read up to the first character that is none of
    its kind. -/
theorem run?_append (p : Char → Bool) (w rest : List Char) (hne : w ≠ [])
    (hw : ∀ c ∈ w, p c = true) (hrest : ∀ c ∈ rest.head?, p c = false) :
    run? p (w ++ rest) = some (w, rest) := by
  rcases span_append p w rest hw hrest with ⟨htake, hdrop⟩
  unfold run?
  rw [htake, hdrop]
  split
  · exact absurd rfl hne
  · rfl

/-- The digits of a number are read up to the first character that is none. -/
theorem digits?_toDigits (n : Nat) (rest : List Char)
    (hrest : ∀ c ∈ rest.head?, c.isDigit = false) :
    run? Char.isDigit (Nat.toDigits 10 n ++ rest) = some (Nat.toDigits 10 n, rest) :=
  run?_append Char.isDigit _ rest Nat.toDigits_ne_nil (Text.isDigit_toDigits n) hrest

/-- The digits of a number that fits are worth the number. -/
theorem checkWord64_toDigits (kind : FlawKind) (start : List Char) (n : Nat)
    (hn : n < UInt64.size) : checkWord64 kind 10 start (Nat.toDigits 10 n) = .ok n := by
  unfold checkWord64
  rw [Text.ofDigits_toDigits 10 n (by decide) (by decide), if_pos hn]

/-- A number is its introducer, then its digits, then the check of their value.
    -/
theorem number_run_eq (r : Rule) (kind : FlawKind) (introducer : String) (base : Nat)
    (isDigit : Char → Bool) (cs : List Char) :
    (number r kind introducer base isDigit).run cs =
      (introducer.toList.isPrefixOf? cs).bind fun digits => (run? isDigit digits).bind
        fun r => some (checkWord64 kind base cs r.1, r.2) := rfl

/-- A number is read as the number it was written from. -/
theorem number_run (r : Rule) (kind : FlawKind) (n : Nat) (rest : List Char) (hn : n < UInt64.size)
    (hrest : ∀ c ∈ rest.head?, c.isDigit = false) :
    (number r kind "" 10 Char.isDigit).run (Nat.toDigits 10 n ++ rest) = some (.ok n, rest) := by
  -- A decimal has no introducer, and nothing is taken off.
  have hstarts : "".toList.isPrefixOf? (Nat.toDigits 10 n ++ rest)
      = some (Nat.toDigits 10 n ++ rest) := rfl
  rw [number_run_eq, hstarts, Option.bind_some, digits?_toDigits n rest hrest, Option.bind_some,
    checkWord64_toDigits kind _ n hn]

/-- A character that starts a word is no digit. -/
theorem not_isDigit_of_isHead (c : Char) (hc : isHead c = true) : c.isDigit = false := by
  unfold isHead at hc
  rcases Bool.or_eq_true_iff.mp hc with halpha | hscore
  -- Of the two kinds of heads, an underscore is no digit anyway.
  · cases hd : c.isDigit with
    | false => rfl
    | true =>
        -- Every letter is above the digits.
        have hnine : c.val ≤ '9'.val := of_decide_eq_true (Bool.and_eq_true_iff.mp hd).2
        rcases Bool.or_eq_true_iff.mp halpha with hupper | hlower
        · exact absurd (UInt32.le_trans (of_decide_eq_true hupper).1 hnine) (by decide)
        · have hletter := of_decide_eq_true (Bool.and_eq_true_iff.mp hlower).1
          exact absurd (UInt32.le_trans hletter hnine) (by decide)
  · rw [of_decide_eq_true hscore]
    rfl

/-- A digit can continue a word. -/
theorem isTail_of_isDigit (c : Char) (hc : c.isDigit = true) : isTail c = true := by
  unfold isTail Char.isAlphanum
  rw [hc, Bool.or_true, Bool.true_or]

/-- A character that ends a word is no digit. -/
theorem not_isDigit_of_endsWord (rest : List Char) (h : EndsWord rest) :
    ∀ c ∈ rest.head?, c.isDigit = false := by
  intro c hc
  have htail := (h c hc).1
  cases hd : c.isDigit with
  | false => rfl
  | true =>
      rw [isTail_of_isDigit c hd] at htail
      cases htail

/-- A width is read as the number it was written from. -/
theorem bitwidth_run (n : Nat) (rest : List Char) (hn : n < UInt64.size)
    (hrest : ∀ c ∈ rest.head?, c.isDigit = false) :
    bitwidth.run (Nat.toDigits 10 n ++ rest) = some (.ok n, rest) :=
  number_run .bitwidth .bitwidth n rest hn hrest

/-- A written number does not start like a number of another base. -/
theorem not_introduced (c : Char) (hc : isTail c = true) (hdigit : c.isDigit = false) (n : Nat)
    (rest : List Char) (hrest : EndsWord rest) : ¬ ['0', c] <+: Nat.toDigits 10 n ++ rest := by
  intro hstarts
  -- The second character is a digit or the first one after the number.
  have hsecond : (Nat.toDigits 10 n ++ rest)[1]? = some c := by
    rcases hstarts with ⟨t, ht⟩
    rw [← ht]
    rfl
  -- With two digits the second character is one of them, and `c` is not.
  by_cases hlen : 1 < (Nat.toDigits 10 n).length
  · rw [List.getElem?_append_left hlen] at hsecond
    have hmem := List.mem_of_getElem? hsecond
    rw [Text.isDigit_toDigits n c hmem] at hdigit
    cases hdigit
  · have hpos : 0 < (Nat.toDigits 10 n).length := List.length_pos_iff.mpr Nat.toDigits_ne_nil
    rw [List.getElem?_append_right (by omega)] at hsecond
    have hone : 1 - (Nat.toDigits 10 n).length = 0 := by omega
    rw [hone, ← List.head?_eq_getElem?] at hsecond
    have htail := (hrest c hsecond).1
    rw [hc] at htail
    cases htail

/-- Without its introducer no number of a base is read. -/
theorem number_run_none (r : Rule) (kind : FlawKind) (base : Nat) (isDigit : Char → Bool)
    (introducer : String) (cs : List Char) (h : ¬ introducer.toList <+: cs) :
    (number r kind introducer base isDigit).run cs = none := by
  rw [number_run_eq, isPrefixOf?_eq_none introducer.toList cs h, Option.bind_none]

/-- A literal without the introducer of another base is a decimal. -/
theorem numLit_run_decimal (cs : List Char) (hhex : ¬ "0x".toList <+: cs)
    (hbin : ¬ "0b".toList <+: cs) :
    numLit.run cs = ((number .decimal .decimal "" 10 Char.isDigit).orElse fail).run cs := by
  change ((number .hex .hexadecimal "0x" 16 Text.isHexDigit).orElse
    ((number .binary .binary "0b" 2 Text.isBinDigit).orElse
      ((number .decimal .decimal "" 10 Char.isDigit).orElse fail))).run cs = _
  rw [orElse_run, number_run_none _ _ _ _ "0x" cs hhex]
  change ((number .binary .binary "0b" 2 Text.isBinDigit).orElse
    ((number .decimal .decimal "" 10 Char.isDigit).orElse fail)).run cs = _
  rw [orElse_run, number_run_none _ _ _ _ "0b" cs hbin]

/-- A literal is read as the number it was written from. -/
theorem numLit_run (n : Nat) (rest : List Char) (hn : n < UInt64.size) (hrest : EndsWord rest) :
    numLit.run (Nat.toDigits 10 n ++ rest) = some (.ok n, rest) := by
  have hdec := number_run .decimal .decimal n rest hn (not_isDigit_of_endsWord rest hrest)
  rw [numLit_run_decimal _ (not_introduced 'x' rfl rfl n rest hrest)
    (not_introduced 'b' rfl rfl n rest hrest), orElse_run, hdec]

/-- Nothing that starts without a digit is a literal. -/
theorem fails_numLit (c : Char) (rest : List Char) (hc : c.isDigit = false)
    (hsolid : isSolid c = true) : Fails numLit (c :: rest) := by
  have hzero : '0' ≠ c := by
    rintro rfl
    cases hc
  -- Every introducer starts with a zero.
  have hnot : ∀ w : List Char, ¬ ('0' :: w) <+: c :: rest :=
    fun w h => hzero (List.cons_prefix_cons.mp h).1
  have hrun : run? Char.isDigit (c :: rest) = none := by
    unfold run?
    rw [List.takeWhile_cons_of_neg (by rw [hc]; exact Bool.false_ne_true)]
  have hdec : (number .decimal .decimal "" 10 Char.isDigit).run (c :: rest) = none := by
    change (run? Char.isDigit (c :: rest)).bind _ = none
    rw [hrun, Option.bind_none]
  refine fails_solid c rest hsolid ?_
  rw [numLit_run_decimal _ (hnot ['x']) (hnot ['b']), orElse_run, hdec]
  rfl

/-- `w` is an identifier. -/
def IsIdent (w : List Char) : Prop :=
  ∃ c cs, w = c :: cs ∧ isHead c = true ∧ ∀ d ∈ cs, isTail d = true

/-- `w` is a path of identifiers. -/
inductive IsPath : List Char → Prop where
  | single (w : List Char) (hw : IsIdent w) : IsPath w
  | dot (w p : List Char) (hw : IsIdent w) (hp : IsPath p) : IsPath (w ++ '.' :: p)

/-- `idx` is empty or an index in brackets. -/
def IsIndex (idx : List Char) : Prop :=
  idx = [] ∨ ∃ i, idx = '[' :: Nat.toDigits 10 i ++ [']']

/-- `w` is the name of a channel: a path, with an index if it belongs to an
    array. -/
def IsName (w : List Char) : Prop :=
  ∃ p idx, w = p ++ idx ∧ IsPath p ∧ IsIndex idx

/-- Segments that satisfy `S`, with points between them. -/
inductive Dotted (S : List Char → Prop) : List Char → Prop where
  | single (w : List Char) (hw : S w) : Dotted S w
  | dot (w p : List Char) (hw : S w) (hp : Dotted S p) : Dotted S (w ++ '.' :: p)

/-- `w` is an identifier with any digits in brackets behind it, or without. -/
def IsSegment (w : List Char) : Prop :=
  ∃ v idx, w = v ++ idx ∧ IsIdent v ∧
    (idx = [] ∨ ∃ ds, ds ≠ [] ∧ (∀ d ∈ ds, d.isDigit = true) ∧ idx = '[' :: ds ++ [']'])

/-- `w` is a reference to a channel. -/
def IsReference (w : List Char) : Prop :=
  Dotted IsSegment w

/-- An identifier is a segment without an index. -/
theorem IsIdent.segment {w : List Char} (h : IsIdent w) : IsSegment w :=
  ⟨w, [], (List.append_nil w).symm, h, Or.inl rfl⟩

/-- A declared path is made of identifiers with points between them. -/
theorem IsPath.dotted {p : List Char} (h : IsPath p) : Dotted IsIdent p := by
  induction h with
  | single w hw => exact .single w hw
  | dot w p hw _ ih => exact .dot w p hw ih

/-- The name of a channel can be used. -/
theorem IsName.reference {w : List Char} (h : IsName w) : IsReference w := by
  rcases h with ⟨p, idx, rfl, hp, hidx⟩
  have hdigits : idx = [] ∨ ∃ ds, ds ≠ [] ∧ (∀ d ∈ ds, d.isDigit = true) ∧
      idx = '[' :: ds ++ [']'] := by
    rcases hidx with rfl | ⟨i, rfl⟩
    · exact Or.inl rfl
    · exact Or.inr ⟨Nat.toDigits 10 i, Nat.toDigits_ne_nil, Text.isDigit_toDigits i, rfl⟩
  -- The index stands behind the last segment, so the induction carries it along.
  induction hp with
  | single w hw => exact .single _ ⟨w, idx, rfl, hw, hdigits⟩
  | dot w p hw _ ih =>
      rw [List.append_assoc, List.cons_append]
      exact .dot w (p ++ idx) hw.segment ih

/-- An identifier is read up to something that cannot continue it. -/
theorem identifier?_append (w rest : List Char) (hw : IsIdent w)
    (hrest : ∀ c ∈ rest.head?, isTail c = false) :
    identifier? (w ++ rest) = some (w, rest) := by
  rcases hw with ⟨c, cs, rfl, hhead, htail⟩
  rcases span_append isTail cs rest htail hrest with ⟨htake, hdrop⟩
  rw [List.cons_append, identifier?, if_pos hhead, htake, hdrop]

/-- A segment is read where neither a word nor an index goes on. -/
theorem indexed?_append (w rest : List Char) (hw : IsSegment w)
    (hrest : ∀ c ∈ rest.head?, isTail c = false ∧ c ≠ '[') :
    indexed? (w ++ rest) = some (w, rest) := by
  rcases hw with ⟨v, idx, rfl, hv, rfl | ⟨ds, hne, hds, rfl⟩⟩
  -- Without an index the rest starts with something else than a bracket.
  · have hindex : index rest = ([], rest) := by
      rw [index.eq_def]
      split
      · rename_i inner
        exact absurd rfl (hrest '[' rfl).2
      · rfl
    rw [List.append_nil]
    unfold indexed?
    rw [identifier?_append v rest hv fun c hc => (hrest c hc).1]
    simp only [Option.bind_eq_bind, Option.bind_some, hindex, List.append_nil]
    rfl
  · have hindex : index ('[' :: (ds ++ ']' :: rest)) = ('[' :: ds ++ [']'], rest) := by
      -- The closing bracket ends the digits.
      have hdigits := run?_append Char.isDigit ds (']' :: rest) hne hds (head_cons ']' rest rfl)
      rw [index]
      unfold digits?
      rw [hdigits]
      rfl
    have hassoc : v ++ ('[' :: ds ++ [']']) ++ rest = v ++ '[' :: (ds ++ ']' :: rest) := by
      simp
    rw [hassoc]
    unfold indexed?
    rw [identifier?_append v _ hv (head_cons '[' _ rfl)]
    simp only [Option.bind_eq_bind, Option.bind_some, hindex]
    rfl

/-- Without a point there are no further segments. -/
theorem segments_stop (segment : List Char → Option (List Char × List Char)) (fuel : Nat)
    (rest : List Char) (hrest : ∀ c ∈ rest.head?, c ≠ '.') :
    segments segment fuel rest = ([], rest) := by
  rw [segments.eq_def]
  split
  · rfl
  · split
    · exact absurd rfl (hrest '.' rfl)
    · rfl

section Dotted

variable (segment : List Char → Option (List Char × List Char)) {S : List Char → Prop}
  {rest : List Char}

/-- Segments are read to their end, if each is read in front of a point and in
    front of the rest. -/
theorem segments_dotted (hinner : ∀ w r, S w → segment (w ++ '.' :: r) = some (w, '.' :: r))
    (hlast : ∀ w, S w → segment (w ++ rest) = some (w, rest))
    (hrest : ∀ c ∈ rest.head?, c ≠ '.') (p : List Char) (hp : Dotted S p) (fuel : Nat)
    (hfuel : p.length < fuel) :
    segments segment fuel ('.' :: (p ++ rest)) = ('.' :: p, rest) := by
  induction hp generalizing fuel with
  | single w hw =>
      -- The fuel is above the length of what is left, so it does not run out.
      cases fuel with
      | zero => exact absurd hfuel (Nat.not_lt_zero _)
      | succ fuel =>
          rw [segments, hlast w hw]
          simp only [segments_stop segment fuel rest hrest, List.append_nil]
  | dot w p hw hp ih =>
      cases fuel with
      | zero => exact absurd hfuel (Nat.not_lt_zero _)
      | succ fuel =>
          have hlen : p.length < fuel := by
            rw [List.length_append, List.length_cons] at hfuel
            omega
          rw [List.append_assoc, List.cons_append, segments, hinner w _ hw]
          simp only [ih fuel hlen, List.cons_append]

/-- So is a whole word that is made of segments. -/
theorem dotted?_append (hinner : ∀ w r, S w → segment (w ++ '.' :: r) = some (w, '.' :: r))
    (hlast : ∀ w, S w → segment (w ++ rest) = some (w, rest))
    (hrest : ∀ c ∈ rest.head?, c ≠ '.') (p : List Char) (hp : Dotted S p) :
    dotted? segment (p ++ rest) = some (p, rest) := by
  cases hp with
  | single w hw =>
      unfold dotted?
      rw [hlast p hw]
      simp only [Option.bind_eq_bind, Option.bind_some, segments_stop segment _ rest hrest,
        List.append_nil]
      rfl
  | dot w p hw hp =>
      -- The first segment is read on its own, and the others after the first point.
      have hmore := segments_dotted segment hinner hlast hrest p hp
        ('.' :: (p ++ rest)).length (by
          simp only [List.length_cons, List.length_append]
          omega)
      rw [List.append_assoc, List.cons_append]
      unfold dotted?
      rw [hinner w _ hw]
      simp only [Option.bind_eq_bind, Option.bind_some, hmore]
      rfl

end Dotted

/-- A declared path is read up to something that cannot continue it, which may
    be the length of an array. -/
theorem path_run (p rest : List Char) (hp : IsPath p)
    (hrest : ∀ c ∈ rest.head?, isTail c = false ∧ c ≠ '.') :
    chanPath.run (p ++ rest) = some (String.ofList p, rest) := by
  have hpath : path? (p ++ rest) = some (p, rest) := by
    refine dotted?_append identifier? ?_ ?_ (fun c hc => (hrest c hc).2) p hp.dotted
    · exact fun w r hw => identifier?_append w _ hw (head_cons '.' r rfl)
    · exact fun w hw => identifier?_append w rest hw fun c hc => (hrest c hc).1
  change (path? (p ++ rest)).map _ = _
  rw [hpath]
  rfl

/-- A reference is read up to something that cannot continue it. -/
theorem reference_run (w rest : List Char) (hw : IsReference w) (hrest : EndsWord rest) :
    chanRef.run (w ++ rest) = some (String.ofList w, rest) := by
  -- Neither a tail, a point nor a bracket follows, so the last segment ends there too.
  have href : reference? (w ++ rest) = some (w, rest) := by
    refine dotted?_append indexed? ?_ ?_ (fun c hc => (hrest c hc).2.1) w hw
    · exact fun v r hv => indexed?_append v _ hv (head_cons '.' r (by decide))
    · exact fun v hv =>
        indexed?_append v rest hv fun c hc => ⟨(hrest c hc).1, (hrest c hc).2.2⟩
  change (reference? (w ++ rest)).map _ = _
  rw [href]
  rfl

/-- A tail is none of the characters that are not. -/
theorem ne_of_isTail (c d : Char) (hc : isTail c = true) (hd : isTail d = false) : c ≠ d := by
  intro heq
  rw [heq, hd] at hc
  cases hc

/-- A tail is neither blank nor the start of a comment. -/
theorem isSolid_of_isTail (c : Char) (hc : isTail c = true) : isSolid c = true := by
  simp [isSolid, isSpace, isLineEnd, ne_of_isTail c ' ' hc rfl, ne_of_isTail c '\t' hc rfl,
    ne_of_isTail c '\n' hc rfl, ne_of_isTail c '\r' hc rfl, ne_of_isTail c '/' hc rfl]

/-- What starts a word can also continue it. -/
theorem isTail_of_isHead (c : Char) (hc : isHead c = true) : isTail c = true := by
  unfold isHead at hc
  unfold isTail Char.isAlphanum
  rcases Bool.or_eq_true_iff.mp hc with halpha | hscore
  · rw [halpha, Bool.true_or, Bool.true_or]
  · rw [hscore, Bool.or_true]

/-- A path starts like an identifier. -/
theorem isPath_cons (p : List Char) (hp : IsPath p) :
    ∃ c cs, p = c :: cs ∧ isHead c = true := by
  cases hp with
  | single w hw =>
      rcases hw with ⟨c, cs, rfl, hc, _⟩
      exact ⟨c, cs, rfl, hc⟩
  | dot w p hw hp =>
      rcases hw with ⟨c, cs, rfl, hc, _⟩
      exact ⟨c, cs ++ '.' :: p, rfl, hc⟩

/-- A reference starts like an identifier. -/
theorem isReference_cons (w : List Char) (hw : IsReference w) :
    ∃ c cs, w = c :: cs ∧ isHead c = true := by
  have hsegment : ∀ v, IsSegment v → ∃ c cs, v = c :: cs ∧ isHead c = true := by
    rintro v ⟨u, idx, rfl, ⟨c, cs, rfl, hc, _⟩, _⟩
    exact ⟨c, cs ++ idx, rfl, hc⟩
  cases hw with
  | single w hw => exact hsegment w hw
  | dot v p hv hp =>
      rcases hsegment v hv with ⟨c, cs, rfl, hc⟩
      exact ⟨c, cs ++ '.' :: p, rfl, hc⟩

/-- May `c` stand in a reference? -/
def isNameChar (c : Char) : Bool :=
  isTail c || c = '.' || c = '[' || c = ']'

/-- A tail may stand in a reference. -/
theorem isNameChar_of_isTail (c : Char) (hc : isTail c = true) : isNameChar c = true := by
  unfold isNameChar
  rw [hc, Bool.true_or, Bool.true_or, Bool.true_or]

/-- An identifier is made of tails. -/
theorem isIdent_chars (w : List Char) (hw : IsIdent w) : ∀ c ∈ w, isTail c = true := by
  rcases hw with ⟨d, ds, rfl, hhead, htail⟩
  intro c hc
  rcases List.mem_cons.mp hc with rfl | hc
  · exact isTail_of_isHead c hhead
  · exact htail c hc

/-- A path is made of tails and points. -/
theorem isPath_chars (p : List Char) (hp : IsPath p) :
    ∀ c ∈ p, isTail c = true ∨ c = '.' := by
  induction hp with
  | single w hw => exact fun c hc => Or.inl (isIdent_chars w hw c hc)
  | dot w p hw hp ih =>
      intro c hc
      rcases List.mem_append.mp hc with hc | hc
      · exact Or.inl (isIdent_chars w hw c hc)
      · rcases List.mem_cons.mp hc with rfl | hc
        · exact Or.inr rfl
        · exact ih c hc

/-- A segment is made of tails, and of brackets around digits. -/
theorem isSegment_chars (w : List Char) (hw : IsSegment w) : ∀ c ∈ w, isNameChar c = true := by
  rcases hw with ⟨v, idx, rfl, hv, hidx⟩
  intro c hc
  rcases List.mem_append.mp hc with hc | hc
  · exact isNameChar_of_isTail c (isIdent_chars v hv c hc)
  -- An index is an opening bracket, digits, and a closing bracket.
  · rcases hidx with rfl | ⟨ds, _, hds, rfl⟩
    · cases hc
    · rcases List.mem_append.mp hc with hc | hc
      · rcases List.mem_cons.mp hc with rfl | hc
        · rfl
        · exact isNameChar_of_isTail c (isTail_of_isDigit c (hds c hc))
      · rw [List.mem_singleton.mp hc]
        rfl

/-- A reference is made of the characters that may stand in one. -/
theorem isReference_chars (w : List Char) (hw : IsReference w) :
    ∀ c ∈ w, isNameChar c = true := by
  induction hw with
  | single w hw => exact isSegment_chars w hw
  | dot w p hw hp ih =>
      intro c hc
      rcases List.mem_append.mp hc with hc | hc
      · exact isSegment_chars w hw c hc
      · rcases List.mem_cons.mp hc with rfl | hc
        · rfl
        · exact ih c hc

/-- No such character is blank or starts a comment. -/
theorem isSolid_of_isNameChar (c : Char) (hc : isNameChar c = true) : isSolid c = true := by
  unfold isNameChar at hc
  simp only [Bool.or_eq_true, decide_eq_true_eq] at hc
  rcases hc with ((htail | rfl) | rfl) | rfl
  · exact isSolid_of_isTail c htail
  · rfl
  · rfl
  · rfl

/-- Nothing is skipped in front of a reference. -/
theorem skip_name (w rest : List Char) (hw : IsReference w) :
    skip (w ++ rest) = w ++ rest := by
  rcases isReference_cons w hw with ⟨c, cs, rfl, hc⟩
  exact skip_isSolid c (cs ++ rest) (isSolid_of_isTail c (isTail_of_isHead c hc))

/-- Nothing is skipped in front of a number. -/
theorem skip_digits (n : Nat) (rest : List Char) :
    skip (Nat.toDigits 10 n ++ rest) = Nat.toDigits 10 n ++ rest := by
  rcases Text.toDigits_head n with ⟨c, cs, hcs, hc⟩
  rw [hcs]
  exact skip_isSolid c (cs ++ rest) (isSolid_of_isTail c (isTail_of_isDigit c hc))

/-- A name is no keyword with its opening mark: where it starts like the
    keyword, the mark does not follow, and what needs the mark is refused. -/
theorem fails_keyword {α β : Type} (keyword opener : String) (o : Char) (w rest : List Char)
    (q : Reader β) (k : β → Reader α) (hq : ∀ cs, Fails (literal opener) cs → Fails q cs)
    (hkeyword : keyword.toList.all isTail = true)
    (hopener : opener.toList.head? = some o) (ho : isNameChar o = false) (hw : IsReference w)
    (hword : EndsWord rest) (hrest : Fails (literal opener) rest) :
    Fails (literal keyword >>= fun _ => gap >>= fun _ => q >>= k) (w ++ rest) := by
  have hskip := skip_name w rest hw
  -- The interesting case is a name that the keyword starts, or that starts the keyword.
  by_cases hstarts : keyword.toList <+: w ++ rest
  · rcases hstarts with ⟨t, ht⟩
    refine fails_seq (reads_literal keyword (hskip.trans ht.symm)) (fails_bind (hq t ?_))
    -- One of the two is the longer one.
    rcases List.append_eq_append_iff.mp ht with ⟨w', hw', ht'⟩ | ⟨u, hu, hrest'⟩
    · rw [ht']
      cases w' with
      | nil => exact hrest
      | cons c w' =>
          -- The name goes on after the keyword.
          have hmem : c ∈ w := by
            rw [hw']
            exact List.mem_append_right _ List.mem_cons_self
          have hc := isReference_chars w hw c hmem
          refine fails_text opener o c (w' ++ rest) hopener (isSolid_of_isNameChar c hc) ?_
          intro heq
          rw [heq, hc] at ho
          cases ho
    · cases u with
      | nil =>
          rw [List.nil_append] at hrest'
          rw [← hrest']
          exact hrest
      | cons c u =>
          -- The keyword goes on after the name, so the name did not end there.
          have hmem : c ∈ keyword.toList := by
            rw [hu]
            exact List.mem_append_right _ List.mem_cons_self
          have hend := (hword c (by rw [hrest']; rfl)).1
          rw [List.all_eq_true.mp hkeyword c hmem] at hend
          cases hend
  -- Otherwise not even the keyword is read.
  · refine fails_bind (fails_literal keyword ?_)
    rw [hskip]
    exact hstarts

/-- A reference is read where it stands. -/
theorem reads_chanRef (w rest : List Char) (hw : IsReference w) (hrest : EndsWord rest) :
    Reads chanRef (w ++ rest) (String.ofList w) rest := by
  refine reads_of_run rest ?_
  rw [skip_name w rest hw]
  exact reference_run w rest hw hrest

/-- So is a width. -/
theorem reads_bitwidth (n : Nat) (rest : List Char) (hn : n < UInt64.size)
    (hrest : ∀ c ∈ rest.head?, c.isDigit = false) :
    Reads bitwidth (Nat.toDigits 10 n ++ rest) (.ok n) rest := by
  refine reads_of_run rest ?_
  rw [skip_digits n rest]
  exact bitwidth_run n rest hn hrest

/-- The name of a process is read up to something that cannot continue it. -/
theorem identifier_run (w rest : List Char) (hw : IsIdent w)
    (hrest : ∀ c ∈ rest.head?, isTail c = false) :
    identifier.run (w ++ rest) = some (String.ofList w, rest) := by
  change (identifier? (w ++ rest)).map _ = _
  rw [identifier?_append w rest hw hrest]
  rfl

/-- And the name of a process. -/
theorem reads_identifier (w rest : List Char) (hw : IsIdent w)
    (hrest : ∀ c ∈ rest.head?, isTail c = false) :
    Reads identifier (w ++ rest) (String.ofList w) rest := by
  have hrun := identifier_run w rest hw hrest
  rcases hw with ⟨c, cs, rfl, hc, _⟩
  exact reads_solid c _ (isSolid_of_isTail c (isTail_of_isHead c hc)) hrun

end Source

end DataflowCircuit
