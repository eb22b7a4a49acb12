import DataflowCircuit.Proofs.Netlist.Deduplication
import Mathlib.Data.List.DropRight

/-!
# Instances Behind Stored Costs

Costs are stored under normalized keys, in which the brackets and commas of an
instance key have become underscores. Two instances whose keys are normalized
alike would share a cost, so what has to be shown is that nothing is lost: an
instance key can be read back from its normalized form.

The name of a template and its parameters meet at an underscore like any other,
and what decides where the name ends is the last piece that is no number.
Outside the functional units the name ends there. A unit name that ends in the
position of a member or in a hash ends there too. Any other unit name is that of
a function on its own, which ends in the width of its output: there, exactly one
of the numbers behind the last word still belongs to the name.

Keys that stand for no instance, such as the latches that initial tokens are
priced by, end in a letter or a digit, while a normalized instance key ends in
the underscore of its closing bracket.

## Main definitions

* `Component.Possible`: The components that lowering can write.
* `ownNumbers`: How many numbers belong to a template name.
* `readKey`: The instance key that a normalized key was made from.
* `Component.Parts`: A template name cut where its last word ends.

## Theorems

* `unitName_ends`: The two ways a unit name ends before it is hashed.
* `Component.readKey_normalizeKey`: A key is read back from its normalized form.
* `possible_of_mem_components`: The components of a process are possible.
* `normalized_keys_are_unambiguous`: No two instances share a normalized key.
-/

namespace DataflowCircuit

/-- A component that lowering can write: any copy, source, sink or buffer, an
    element that routes tokens with the parameters of its kind, and the unit of
    any function or cluster, under the name that its operations spell or under
    that name with a hash behind it. -/
inductive Component.Possible : Component → Prop where
  | copy (width reads : Nat) : Possible (.copy width reads)
  | source (value width : Nat) : Possible (.source value width)
  | sink (width : Nat) : Possible (.sink width)
  | buffer (depth width : Nat) : Possible (.buffer depth width)
  | split (pipeline : Bool) (ports guard width : Nat) :
      Possible (.routing .split pipeline ports [guard, width])
  | merge (pipeline : Bool) (ports guard width : Nat) :
      Possible (.routing .merge pipeline ports [guard, width])
  | mixer (pipeline : Bool) (ports width : Nat) :
      Possible (.routing .mixer pipeline ports [width])
  | arbiter (pipeline : Bool) (ports width control : Nat) :
      Possible (.routing .arbiter pipeline ports [width, control])
  | unit (s : Scope) (el : Element ChannelId Expr) (fu : FunctionalUnit)
      (h : el.unit? s = some fu) : Possible (.unit fu)
  | hashed (s : Scope) (el : Element ChannelId Expr) (fu : FunctionalUnit) (fingerprint : UInt64)
      (h : el.unit? s = some fu) :
      Possible (.unit { fu with name := Cache.hashedName fu.name fingerprint })

section Pieces

/-- Is a piece a number? -/
def isNumberPiece (cs : List Char) : Bool :=
  cs.all Char.isDigit

/-- Does a piece end the name of a unit whatever follows? The position of a
    member and a hash do. -/
def isClosingPiece (cs : List Char) : Bool :=
  isMemberPiece cs || cs.head? == some 'h'

/-- How many numbers belong to a template name whose pieces up to the last word
    are `core`. -/
def ownNumbers (core : List (List Char)) : Nat :=
  if core.head? == some ['f', 'u', 'n', 'c'] && !core.getLast?.any isClosingPiece then 1 else 0

/-- The instance key that a normalized key was made from. -/
def readKey (key : String) : String :=
  let pieces := (key.toList.splitOn '_').dropLast
  let core := pieces.rdropWhile isNumberPiece
  let numbers := pieces.rtakeWhile isNumberPiece
  String.ofList (['_'].intercalate (core ++ numbers.take (ownNumbers core)) ++
    '<' :: ([','].intercalate (numbers.drop (ownNumbers core)) ++ ['>']))

theorem isNumberPiece_toDigits (n : Nat) : isNumberPiece (Nat.toDigits 10 n) = true :=
  List.all_eq_true.mpr (Text.isDigit_toDigits n)

/-- Words before numbers are found by taking the numbers off the end. -/
theorem rdropWhile_words (core numbers : List (List Char)) (front : List (List Char))
    (word : List Char) (hcore : core = front ++ [word]) (hword : isNumberPiece word = false)
    (hnumbers : ∀ cs ∈ numbers, isNumberPiece cs = true) :
    (core ++ numbers).rdropWhile isNumberPiece = core ∧
      (core ++ numbers).rtakeWhile isNumberPiece = numbers := by
  -- Read from the end, numbers come first and the word stops them.
  have hrev : ∀ cs ∈ numbers.reverse, isNumberPiece cs = true := fun cs hcs =>
    hnumbers cs (List.mem_reverse.mp hcs)
  have hlast : ¬ isNumberPiece word = true := by
    rw [hword]
    exact Bool.false_ne_true
  constructor
  · rw [hcore, List.rdropWhile, List.reverse_append, List.dropWhile_append_of_pos hrev,
      List.reverse_concat, List.dropWhile_cons_of_neg hlast, List.reverse_cons,
      List.reverse_reverse]
  · rw [hcore, List.rtakeWhile, List.reverse_append, List.takeWhile_append_of_pos hrev,
      List.reverse_concat, List.takeWhile_cons_of_neg hlast, List.append_nil, List.reverse_reverse]

/-- Pieces with marks between them, and pieces behind marks. -/
theorem intercalate_eq_flatMap (mark : Char) (first : List Char) (rest : List (List Char)) :
    [mark].intercalate (first :: rest) = first ++ rest.flatMap (mark :: ·) := by
  induction rest generalizing first with
  | nil => simp
  | cons cs rest ih =>
      rw [List.intercalate_cons_cons, ih cs, List.flatMap_cons]
      simp

/-- A piece is a number exactly if it is a width. -/
theorem NameToken.isNumberPiece_piece (t : NameToken) (ht : t.Proper) :
    isNumberPiece t.piece = true ↔ ∃ bits, t = .width bits := by
  constructor
  · intro h
    -- A piece that computes holds a character that is no digit.
    have hcomputing : t.isComputing = false := by
      rw [← t.isComputingPiece_piece ht, isComputingPiece, Bool.and_eq_false_iff]
      left
      rw [List.any_eq_false]
      intro c hc
      simp [List.all_eq_true.mp h c hc]
    cases t with
    | width bits => exact ⟨bits, rfl⟩
    | port => exact absurd h (by decide)
    | init value => simp [isNumberPiece, piece] at h
    | member position => simp [isNumberPiece, piece] at h
    | hash fingerprint => simp [isNumberPiece, piece] at h
    | _ => cases hcomputing
  · rintro ⟨bits, rfl⟩
    exact isNumberPiece_toDigits bits

/-- Does a piece end a name whatever follows? -/
def NameToken.closes : NameToken → Bool
  | .member _ | .hash _ => true
  | _ => false

/-- A piece tells whether it ends a name whatever follows. -/
theorem NameToken.isClosingPiece_piece (t : NameToken) (ht : t.Proper) :
    isClosingPiece t.piece = t.closes := by
  -- What computes does not start like a hash.
  have hhead : t.isComputing = true → (t.piece.head? == some 'h') = false := by
    intro hc
    rw [← t.isComputingPiece_piece ht, isComputingPiece, Bool.and_eq_true] at hc
    cases hpiece : t.piece with
    | nil => rfl
    | cons c cs =>
        rw [hpiece, List.head?_cons, Option.all_some] at hc
        have hne : c ≠ 'h' := by
          rintro rfl
          cases hc.2
        simp [hne]
  unfold isClosingPiece
  rw [t.isMemberPiece_piece ht]
  cases t with
  | binary op lhs rhs repeated => exact hhead rfl
  | unary op arg => exact hhead rfl
  | query then_ cond else_ => exact hhead rfl
  | port => decide
  | init value => simp [piece, isMember, closes]
  | width bits =>
      rcases Text.toDigits_head bits with ⟨c, cs, hcs, hdigit⟩
      have hne : c ≠ 'h' := by
        rintro rfl
        cases hdigit
      simp [piece, hcs, isMember, closes, hne]
  | member position => rfl
  | hash fingerprint => rfl

end Pieces

section UnitNames

/-- How the name of a unit ends before it is hashed: a cluster with the position
    of its last member, a function with an operation or an initial token and the
    width of its output. -/
inductive NameEnd : Bool → List NameToken → Prop where
  | member (ts : List NameToken) (position : Nat) : NameEnd true (ts ++ [.member position])
  | width (ts : List NameToken) (t : NameToken) (bits : Nat) (hclose : t.closes = false)
      (hwidth : ∀ w, t ≠ .width w) : NameEnd false (ts ++ [t] ++ [.width bits])

/-- An expression whose value is a result was named last by an operation. -/
theorem Expr.lower_res_name (s : Scope) (element : String) (e : Expr) (w i : Nat)
    (b b' : UnitBuilder) (h : e.lower s element w b = .ok (.res i) b') :
    ∃ ts op, b'.name = ts ++ [Operation.token op] := by
  induction e generalizing w b with
  | const v =>
      rcases lower_const_ok s element v w _ b b' h with ⟨hv, _⟩
      cases hv
  | var id =>
      rcases UnitBuilder.arg_ok s id _ b b' h with ⟨_, _, hslot, _⟩ | ⟨_, _, _, hslot, _⟩
      · cases hslot
      · cases hslot
  | cast arg v ih => exact ih (v.getD w) b h
  | unary op arg _ =>
      rcases lower_unary_ok s element op arg w _ b b' h with ⟨x, b₁, _, _, _, rfl⟩
      exact ⟨b₁.name, .unary op x, rfl⟩
  | binary op lhs rhs _ _ =>
      rcases lower_binary_ok s element op lhs rhs w _ b b' h with
        ⟨_, x, b₁, y, b₂, _, _, _, _, _, rfl⟩
      exact ⟨b₂.name, .binary op x y, rfl⟩
  | query c t e _ _ _ =>
      rcases lower_query_ok s element c t e w _ b b' h with
        ⟨x, b₁, y, b₂, z, b₃, _, _, _, _, _, _, rfl⟩
      exact ⟨b₃.name, .select x y z, rfl⟩

/-- A function body is named last by an operation. -/
theorem Expr.lowerOutput_name (s : Scope) (element : String) (e : Expr) (w i : Nat)
    (b b' : UnitBuilder) (h : e.lowerOutput s element w b = .ok i b') :
    ∃ ts op, b'.name = ts ++ [Operation.token op] := by
  rcases lowerOutput_ok s element e w i b b' h with hres | ⟨slot, b₁, _, _, rfl⟩
  · exact lower_res_name s element e w i b b' hres
  · exact ⟨b₁.name, .forward (.arg slot), rfl⟩

/-- The pieces behind the operations of a member end the name. -/
theorem nameEnd_memberTokens (clustered : Bool) (position width : Nat) (init : Option Nat)
    (ts : List NameToken) (op : Operation) :
    NameEnd clustered
      (ts ++ [op.token] ++ Lowering.memberTokens clustered position width init) := by
  unfold Lowering.memberTokens
  -- A member of a cluster ends in its position, and a function in the width of its output.
  cases clustered with
  | true =>
      rw [if_pos rfl, ← List.append_assoc]
      exact .member _ position
  | false =>
      -- No operation is a width, so the width of the output is told apart from it.
      have hop : op.token.closes = false ∧ ∀ w, op.token ≠ .width w := by
        cases op <;> exact ⟨rfl, fun _ h => by cases h⟩
      cases init with
      | none => simpa using NameEnd.width ts op.token width hop.1 hop.2
      | some v =>
          have hend := NameEnd.width (ts ++ [op.token]) (.init v) width rfl (fun _ h => by cases h)
          simpa using hend

/-- Gathering members leaves a name that ends. -/
theorem nameEnd_gatherUnit (s : Scope) (element : String) (clustered : Bool) (position : Nat)
    (fs : List (Func ChannelId Expr)) (b b' : UnitBuilder) (outs outs' : List UnitOutput)
    (h : Lowering.gatherUnit s element clustered position fs b outs = some (b', outs'))
    (hb : b.name = [] ∨ NameEnd clustered b.name) :
    b'.name = [] ∨ NameEnd clustered b'.name := by
  induction fs generalizing position b outs with
  | nil =>
      cases h
      exact hb
  | cons f fs ih =>
      rcases Lowering.gatherUnit_cons h with
        ⟨v, _, h⟩ | ⟨out, width, result, b₁, _, _, _, hlower, h⟩
      · -- A constant member is a source and adds nothing to the name.
        exact ih _ b outs h hb
      · rcases f.expr.lowerOutput_name s element width result b b₁ hlower with ⟨ts, op, hname⟩
        refine ih _ _ _ h (Or.inr ?_)
        rw [hname]
        exact nameEnd_memberTokens clustered position width _ ts op

/-- The name of the unit of an element is spelled by pieces that lowering can
    write, and it ends in one of the two ways. -/
theorem unitName_ends (s : Scope) (el : Element ChannelId Expr) (fu : FunctionalUnit)
    (h : el.unit? s = some fu) :
    ∃ clustered ts, fu.name = unitName ts ∧ (∀ t ∈ ts, t.Proper) ∧ NameEnd clustered ts := by
  rcases Element.unit?_ok h with ⟨clustered, funcs, b, outs, _, hgather, hstated, rfl⟩
  -- Only operations among the tokens have to be checked, and these come from statements.
  have hoperations := (spells_gatherUnit s _ clustered 0 funcs .empty b [] outs hgather
    (UnitBuilder.spells_empty clustered) (fun _ => rfl)).1.operations
  refine ⟨clustered, b.name, rfl, fun t ht hop => ?_, ?_⟩
  · have hmem := List.mem_filter.mpr ⟨ht, hop⟩
    rw [hoperations] at hmem
    rcases List.mem_map.mp hmem with ⟨st, _, rfl⟩
    exact ⟨st.op, rfl⟩
  · -- A unit has a statement, so its name is not empty.
    refine (nameEnd_gatherUnit s _ clustered 0 funcs .empty b [] outs hgather
      (Or.inl rfl)).resolve_left fun hnil => hstated ?_
    rw [hnil, List.filter_nil] at hoperations
    exact List.map_eq_nil_iff.mp hoperations.symm

end UnitNames

section Decoding

/-- The template name of a component is made of the pieces `core`, which end in
    a word, and of as many numbers as `core` leaves to the name. -/
structure Component.Parts (c : Component) (core : List (List Char)) (numbers : List Nat) :
    Prop where
  name : c.template.name.toList = ['_'].intercalate (core ++ numbers.map (Nat.toDigits 10))
  alphanum : ∀ cs ∈ core, ∀ ch ∈ cs, ch.isAlphanum = true
  word : ∃ front word, core = front ++ [word] ∧ isNumberPiece word = false
  own : ownNumbers core = numbers.length
  params : c.params ≠ []

namespace Component

variable {c : Component} {core : List (List Char)} {numbers : List Nat}

/-- The pieces of the key of a component. -/
theorem Parts.keyPieces_eq (h : c.Parts core numbers) :
    keyPieces c.key = core ++ (numbers ++ c.params).map (Nat.toDigits 10) ++ [[]] := by
  rcases h.word with ⟨front, word, hcore, _⟩
  cases hpieces : core with
  | nil => simp [hpieces] at hcore
  | cons first rest =>
      cases hparams : c.params with
      | nil => exact absurd hparams h.params
      | cons n ns =>
          have hname := h.name
          rw [hpieces, List.cons_append, intercalate_eq_flatMap] at hname
          have halnum := h.alphanum
          rw [hpieces, List.forall_mem_cons] at halnum
          -- Pieces hold letters and digits, so the normalized key is cut between them only.
          have hrest : ∀ cs ∈ rest ++ numbers.map (Nat.toDigits 10), ∀ ch ∈ cs,
              ch.isAlphanum = true := by
            intro cs hcs
            rcases List.mem_append.mp hcs with hcs | hcs
            · exact halnum.2 cs hcs
            · rcases List.mem_map.mp hcs with ⟨k, _, rfl⟩
              exact isAlphanum_toDigits k
          rw [key, hparams, keyPieces_key _ first _ hname halnum.1 hrest n ns]
          simp

/-- A key is read back from the pieces of its normalized form. -/
theorem Parts.readKey_eq (h : c.Parts core numbers) : readKey (normalizeKey c.key) = c.key := by
  rcases h.word with ⟨front, word, hcore, hword⟩
  have hdigits : ∀ cs ∈ (numbers ++ c.params).map (Nat.toDigits 10), isNumberPiece cs = true := by
    intro cs hcs
    rcases List.mem_map.mp hcs with ⟨n, _, rfl⟩
    exact isNumberPiece_toDigits n
  -- The last piece is empty, as the key ends in its bracket.
  have hpieces : ((normalizeKey c.key).toList.splitOn '_').dropLast
      = core ++ (numbers ++ c.params).map (Nat.toDigits 10) := by
    have hsplit := h.keyPieces_eq
    unfold keyPieces at hsplit
    rw [hsplit, List.dropLast_concat]
  rcases rdropWhile_words core _ front word hcore hword hdigits with ⟨hdrop, htake⟩
  -- As many numbers go to the name as belong to it.
  have hown : ownNumbers core = (numbers.map (Nat.toDigits 10)).length := by
    rw [h.own, List.length_map]
  unfold readKey
  simp only [hpieces, hdrop, htake, hown]
  rw [List.map_append, List.take_left, List.drop_left, ← h.name]
  refine String.toList_injective ?_
  have hparams : (String.intercalate "," (c.params.map toString)).toList
      = [','].intercalate (c.params.map (Nat.toDigits 10)) := by
    rw [String.toList_intercalate, List.map_map]
    refine congrArg [','].intercalate (List.map_congr_left fun n _ => ?_)
    exact Text.toString_toList n
  rw [String.toList_ofList, key, String.toList_append, String.toList_append, String.toList_append,
    hparams]
  simp

end Component

/-- A plain name is one word. -/
theorem parts_of_word (c : Component) (first : Char) (rest : List Char)
    (hname : c.template.name.toList = first :: rest)
    (halnum : ∀ ch ∈ first :: rest, ch.isAlphanum = true) (hfirst : first.isDigit = false)
    (hfunc : first :: rest ≠ ['f', 'u', 'n', 'c']) (hparams : c.params ≠ []) :
    c.Parts [first :: rest] [] := by
  refine ⟨?_, ?_, ⟨[], _, rfl, ?_⟩, ?_, hparams⟩
  · rw [hname, List.map_nil, List.append_nil, List.intercalate_singleton]
  · rw [List.forall_mem_singleton]
    exact halnum
  · rw [isNumberPiece, List.all_cons, hfirst, Bool.false_and]
  · unfold ownNumbers
    rw [if_neg]
    · rfl
    · simpa using fun h₁ h₂ => absurd (by rw [h₁, h₂]) hfunc

/-- The name of an element that routes tokens is two words. -/
theorem parts_of_routing (kind : Routing) (pipeline : Bool) (ports : Nat) (widths : List Nat)
    (hwidths : widths ≠ []) :
    ∃ core, (Component.routing kind pipeline ports widths).Parts core [] := by
  refine ⟨[if pipeline then ['p', 'i', 'p', 'e'] else ['u', 'n', 'p', 'i', 'p', 'e'],
    kind.text.toList ++ Nat.toDigits 10 ports], ?_, ?_, ⟨[_], _, rfl, ?_⟩, ?_, hwidths⟩
  · rw [Component.template, Component.structuralName_toList]
    simp
  · have hkind : ∀ ch ∈ kind.text.toList, ch.isAlphanum = true :=
      List.all_eq_true.mp (by cases kind <;> decide)
    have hpipe : ∀ ch ∈ (if pipeline then ['p', 'i', 'p', 'e'] else ['u', 'n', 'p', 'i', 'p', 'e']),
        ch.isAlphanum = true :=
      List.all_eq_true.mp (by cases pipeline <;> decide)
    rw [List.forall_mem_cons, List.forall_mem_singleton]
    exact ⟨hpipe, fun ch hch => (List.mem_append.mp hch).elim (hkind ch)
      (isAlphanum_toDigits ports ch)⟩
  -- The word of the kind is what keeps the second piece from being a number.
  · have hkind : kind.text.toList.all Char.isDigit = false := by cases kind <;> decide
    rw [isNumberPiece, List.all_append, hkind, Bool.false_and]
  · cases pipeline <;> rfl

/-- The pieces of a unit name whose last token is no number and leaves `own`
    numbers to the name. -/
theorem parts_of_tokens (fu : FunctionalUnit) (ts : List NameToken) (t : NameToken)
    (numbers : List Nat) (hproper : ∀ u ∈ ts ++ [t], u.Proper)
    (hname : fu.name = unitName (ts ++ [t] ++ numbers.map .width)) (hwidth : ∀ w, t ≠ .width w)
    (hown : numbers.length = if t.closes then 0 else 1) (hparams : fu.params ≠ []) :
    (Component.unit fu).Parts (['f', 'u', 'n', 'c'] :: (ts ++ [t]).map NameToken.piece)
      numbers := by
  have ht := hproper t (List.mem_append_right _ (List.mem_singleton_self t))
  refine ⟨?_, ?_, ⟨['f', 'u', 'n', 'c'] :: ts.map NameToken.piece, t.piece, ?_, ?_⟩, ?_, hparams⟩
  · have hnumbers : (numbers.map NameToken.width).map NameToken.piece
        = numbers.map (Nat.toDigits 10) := by
      rw [List.map_map]
      rfl
    rw [List.cons_append, intercalate_eq_flatMap, Component.template, hname, unitName_toList,
      List.map_append, hnumbers]
  · rw [List.forall_mem_cons]
    refine ⟨List.all_eq_true.mp (by decide), fun cs hcs => ?_⟩
    rcases List.mem_map.mp hcs with ⟨u, hu, rfl⟩
    exact u.isAlphanum_piece (hproper u hu)
  · rw [List.map_append, List.map_singleton, List.cons_append]
  · rw [Bool.eq_false_iff]
    intro hnumber
    -- Only a width is a number, and the last token is none.
    rcases (t.isNumberPiece_piece ht).mp hnumber with ⟨w, hw⟩
    exact hwidth w hw
  · have hlast : (['f', 'u', 'n', 'c'] :: (ts ++ [t]).map NameToken.piece).getLast?
        = some t.piece := by
      rw [List.map_append, List.map_singleton, ← List.cons_append, List.getLast?_concat]
    unfold ownNumbers
    rw [hlast, Option.any_some, t.isClosingPiece_piece ht, hown]
    cases t.closes <;> rfl

/-- Every possible component has a template name that can be cut. -/
theorem parts_of_possible (c : Component) (hc : c.Possible) :
    ∃ core numbers, c.Parts core numbers := by
  cases hc with
  | copy width reads =>
      exact ⟨_, [], parts_of_word _ 'c' ['o', 'p', 'y'] (by simp [Component.template])
        (List.all_eq_true.mp (by decide)) rfl (by decide) (by simp [Component.params])⟩
  | source value width =>
      exact ⟨_, [], parts_of_word _ 's' ['o', 'u', 'r', 'c', 'e'] (by simp [Component.template])
        (List.all_eq_true.mp (by decide)) rfl (by decide) (by simp [Component.params])⟩
  | sink width =>
      exact ⟨_, [], parts_of_word _ 's' ['i', 'n', 'k'] (by simp [Component.template])
        (List.all_eq_true.mp (by decide)) rfl (by decide) (by simp [Component.params])⟩
  | buffer depth width =>
      exact ⟨_, [], parts_of_word _ 'b' ['u', 'f', 'f', 'e', 'r'] (by simp [Component.template])
        (List.all_eq_true.mp (by decide)) rfl (by decide) (by simp [Component.params])⟩
  | split pipeline ports guard width =>
      rcases parts_of_routing .split pipeline ports [guard, width] (by simp) with ⟨core, h⟩
      exact ⟨core, [], h⟩
  | merge pipeline ports guard width =>
      rcases parts_of_routing .merge pipeline ports [guard, width] (by simp) with ⟨core, h⟩
      exact ⟨core, [], h⟩
  | mixer pipeline ports width =>
      rcases parts_of_routing .mixer pipeline ports [width] (by simp) with ⟨core, h⟩
      exact ⟨core, [], h⟩
  | arbiter pipeline ports width control =>
      rcases parts_of_routing .arbiter pipeline ports [width, control] (by simp) with ⟨core, h⟩
      exact ⟨core, [], h⟩
  | unit s el fu h =>
      have hparams := (spelled_of_unit? s el fu h).params_ne_nil
      rcases unitName_ends s el fu h with ⟨clustered, ts, hname, hproper, hend⟩
      cases hend with
      | member ts position =>
          exact ⟨_, [], parts_of_tokens fu ts (.member position) [] hproper
            (by rw [hname, List.map_nil, List.append_nil]) (fun _ h => by cases h) rfl hparams⟩
      | width ts t bits hclose hwidth =>
          refine ⟨_, [bits], parts_of_tokens fu ts t [bits] (fun u hu => ?_) hname hwidth ?_
            hparams⟩
          · exact hproper u (List.mem_append_left _ hu)
          · rw [hclose]
            rfl
  | hashed s el fu fingerprint h =>
      have hparams := (spelled_of_unit? s el fu h).params_ne_nil
      rcases unitName_ends s el fu h with ⟨_, ts, hname, hproper, _⟩
      refine ⟨_, [], parts_of_tokens _ ts (.hash fingerprint.toNat) [] (fun u hu => ?_) ?_
        (fun _ h => by cases h) rfl hparams⟩
      · rcases List.mem_append.mp hu with hu | hu
        · exact hproper u hu
        · rw [List.mem_singleton.mp hu]
          exact fun hop => by cases hop
      · rw [List.map_nil, List.append_nil, Cache.hashedName, hname]
        simp [unitName, String.append_assoc]

/-- An instance key is read back from its normalized form. -/
theorem Component.readKey_normalizeKey (c : Component) (hc : c.Possible) :
    readKey (normalizeKey c.key) = c.key := by
  rcases parts_of_possible c hc with ⟨core, numbers, h⟩
  exact h.readKey_eq

/-- A normalized instance key ends in the underscore of its bracket. -/
theorem Component.normalizeKey_last (c : Component) :
    (normalizeKey c.key).toList.getLast? = some '_' := by
  rw [normalizeKey, String.toList_ofList, key, String.toList_append, List.map_append]
  exact List.getLast?_concat

end Decoding

section Lowered

/-- The unit of an element is possible under the name of its template. -/
theorem possible_under (s : Scope) (el : Element ChannelId Expr) (fu : FunctionalUnit) (T : Bodies)
    (h : el.unit? s = some fu) : (Component.unit (fu.under T)).Possible := by
  unfold FunctionalUnit.under Bodies.templateName
  by_cases hT : T.lookup fu.name = some (Text.fingerprint fu.body)
  · rw [if_pos hT]
    exact .unit s el fu h
  · rw [if_neg hT]
    exact .hashed s el fu _ h

/-- The components of an element are possible. -/
theorem possible_of_mem_element (p : Process) (pipeline : Bool) (T : Bodies)
    (el : Element ChannelId Expr) (c : Component) (h : c ∈ el.components p pipeline T) :
    c.Possible := by
  unfold Element.components at h
  cases hmembers : el.members? with
  | some pair =>
      rw [hmembers] at h
      simp only [List.mem_append] at h
      rcases h with (h | h) | h
      · rcases List.mem_filterMap.mp h with ⟨f, _, hf⟩
        unfold Func.source? at hf
        rcases Option.bind_eq_some_iff.mp hf with ⟨value, _, hf⟩
        rcases Option.bind_eq_some_iff.mp hf with ⟨out, _, hf⟩
        cases hf
        exact .source value _
      · rcases List.mem_map.mp h with ⟨fu, hfu, rfl⟩
        exact possible_under p.scope el fu T (Option.mem_toList.mp hfu)
      · rcases List.mem_filterMap.mp h with ⟨f, _, hf⟩
        unfold Func.bufferComponent? at hf
        split at hf
        · cases hf
        · rcases Option.bind_eq_some_iff.mp hf with ⟨depth, _, hf⟩
          rcases Option.bind_eq_some_iff.mp hf with ⟨out, _, hf⟩
          cases hf
          exact .buffer depth _
  | none =>
      rw [hmembers] at h
      cases el with
      | split guard input outputs =>
          rcases List.mem_cons.mp h with rfl | h
          · exact .split pipeline _ _ _
          · rcases List.mem_map.mp h with ⟨out, _, rfl⟩
            exact .sink _
      | merge guard inputs out =>
          rw [List.mem_singleton.mp h]
          exact .merge pipeline _ _ _
      | mixer inputs out =>
          rw [List.mem_singleton.mp h]
          exact .mixer pipeline _ _
      | arbiter inputs out ctrl =>
          rw [List.mem_singleton.mp h]
          exact .arbiter pipeline _ _ _
      | sink input =>
          rw [List.mem_singleton.mp h]
          exact .sink _
      | func f => cases hmembers
      | cluster funcs => cases hmembers

/-- The components of a process are possible. -/
theorem possible_of_mem_components (p : Process) (pipeline : Bool) (T : Bodies) (c : Component)
    (h : c ∈ p.components pipeline T) : c.Possible := by
  rcases List.mem_append.mp h with h | h
  · rcases List.mem_map.mp h with ⟨id, _, rfl⟩
    exact .copy _ _
  · rcases List.mem_flatMap.mp h with ⟨el, _, hc⟩
    exact possible_of_mem_element p pipeline T el c hc

/-- The copies and instances of a lowered process have keys of possible
    components. -/
theorem possible_of_mem_sites (p : Process) (s s' : Session) (out : LoweredProcess)
    (h : lowerProcess p s = .ok out s') (site : Instance) (hsite : site ∈ out.sites) :
    ∃ c : Component, c.Possible ∧ site.key = c.key := by
  rcases lowerProcess_emits p s s' out h with ⟨calls, hcalls, hcomponents⟩
  -- Every site was registered, and what is registered are components.
  have hkey : site.key ∈ calls.map Call.key := by
    rw [← hcalls.sites, List.flatMap_singleton]
    exact List.mem_map_of_mem hsite
  rcases List.mem_map.mp hkey with ⟨call, hcall, hcallKey⟩
  refine ⟨call.component, ?_, hcallKey.symm⟩
  refine possible_of_mem_components p s.pipeline s'.cache.bodies call.component ?_
  rw [← hcomponents _ (Bodies.Keeps.refl _)]
  exact List.mem_map_of_mem hcall

end Lowered

/-- Instances have normalized keys of their own. Every copy and instance that
    lowering writes has the key of a possible component; of possible components,
    those whose normalized keys are equal have equal keys; and no normalized key
    of a possible component is one of the keys that stand for no instance. -/
theorem normalized_keys_are_unambiguous :
    (∀ p s s' out, lowerProcess p s = .ok out s' → ∀ site ∈ out.sites,
      ∃ c : Component, c.Possible ∧ site.key = c.key) ∧
    (∀ c d : Component, c.Possible → d.Possible → normalizeKey c.key = normalizeKey d.key →
      c.key = d.key) ∧
    ∀ c : Component, c.Possible → normalizeKey c.key ≠ Session.latchKey ∧
      normalizeKey c.key ≠ Session.twoToOneKey ∧
      ∀ width, normalizeKey c.key ≠ Lowering.genericSourceKey width := by
  refine ⟨possible_of_mem_sites, fun c d hc hd h => ?_, fun c _ => ?_⟩
  · rw [← c.readKey_normalizeKey hc, h, d.readKey_normalizeKey hd]
  · have hends : ∀ key : String, key.toList.getLast? ≠ some '_' → normalizeKey c.key ≠ key := by
      rintro key hkey rfl
      exact hkey c.normalizeKey_last
    refine ⟨hends _ (by simp [Session.latchKey]), hends _ (by simp [Session.twoToOneKey]),
      fun width => hends _ ?_⟩
    -- The generic key of a source ends in a digit of its width.
    intro hlast
    have hdigit : '_' ∈ Nat.toDigits 10 width := by
      have htext : (Lowering.genericSourceKey width).toList
          = ['s', 'o', 'u', 'r', 'c', 'e'] ++ Nat.toDigits 10 width := by
        rw [Lowering.genericSourceKey, String.toList_append, Text.toString_toList]
        rfl
      rw [htext, List.getLast?_append_of_ne_nil _ Nat.toDigits_ne_nil] at hlast
      exact List.mem_of_getLast? hlast
    exact absurd (Text.isDigit_toDigits width '_' hdigit) (by decide)

/-- A copy, a function with an initial token, a function that forwards and a
    cluster, whose keys run into the same digits once their brackets are gone:
    every two of them are still told apart. -/
theorem widths_do_not_merge_with_names :
    let p : Process := ⟨"p", ⟨[⟨"a", .int 8, .port .input, 0⟩,
        ⟨"x", .int 8, .port .output, 1⟩, ⟨"y", .int 8, .port .output, 2⟩,
        ⟨"z", .int 8, .port .output, 3⟩]⟩,
      [.func ⟨.var 0, some ⟨0, some (.const 8)⟩, some 1⟩, .func ⟨.var 0, none, some 2⟩,
        .cluster [⟨.var 0, none, some 3⟩]]⟩
    let s : Session := { Session.start false .empty with
      metrics := [("copy_8_3_", ⟨1, 1, 1, 1⟩), ("latch1", ⟨1, 1, 1, 1⟩),
        ("twoToOne", ⟨1, 1, 1, 1⟩)] }
    ∃ out s', lowerProcess p s = .ok out s' ∧
      out.sites.map Instance.key = ["copy<8,3>", "func_port_init8_8<8,8,8>", "func_port_8<8,8,8>",
        "func_port_8_p0<8,8,8>"] ∧
      (∀ x ∈ out.sites, ∀ y ∈ out.sites, normalizeKey x.key = normalizeKey y.key →
        x.key = y.key) ∧
      ∀ x ∈ out.sites, normalizeKey x.key ≠ Session.latchKey := by
  intro p s
  have hrun : (match lowerProcess p s with
      | .ok out _ => out.sites.map Instance.key
      | .error _ _ => []) = ["copy<8,3>", "func_port_init8_8<8,8,8>", "func_port_8<8,8,8>",
        "func_port_8_p0<8,8,8>"] := by decide +kernel
  cases hlower : lowerProcess p s with
  | error e s' =>
      rw [hlower] at hrun
      cases hrun
  | ok out s' =>
      rw [hlower] at hrun
      rcases normalized_keys_are_unambiguous with ⟨hpossible, hinj, hother⟩
      refine ⟨out, s', rfl, hrun, fun x hx y hy h => ?_, fun x hx => ?_⟩
      · rcases hpossible p s s' out hlower x hx with ⟨c, hc, hckey⟩
        rcases hpossible p s s' out hlower y hy with ⟨d, hd, hdkey⟩
        rw [hckey, hdkey] at h ⊢
        exact hinj c d hc hd h
      · rcases hpossible p s s' out hlower x hx with ⟨c, hc, hckey⟩
        rw [hckey]
        exact (hother c hc).1

end DataflowCircuit
