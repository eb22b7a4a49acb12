import DataflowCircuit.Emit.Template
import DataflowCircuit.Proofs.Naming.Names

/-!
# Reading Bodies Back

The body of a unit is a text without widths, and units with the same name and
the same body share a template. So the body has to say everything that the
template prints.

It does, although its separators also stand inside it. The number of arguments
comes before the first bar and the outputs after the last one, and whatever bars
are in between are operators. A statement holds no semicolon and an output no
comma, so the two lists fall apart into their texts. A statement is a result
number and words between blanks, and the words of an operation tell its shape
and its operands; only logical not and complement are written alike.

`FunctionalUnit.printed` is what is left of a unit when widths and buffers are
forgotten and these two operators are identified. A template is printed from it,
and a body determines it.

## Main definitions

* `Operation.words`: The words of an operation.
* `FunctionalUnit.printed`: The part of a unit that is printed.
* `FunctionalUnit.characters`: The characters of a body.

## Theorems

* `Operation.printed_eq_of_text`, `Statement.printed_eq_of_text`,
  `UnitOutput.printed_eq_of_text`: Texts are read back.
* `FunctionalUnit.body_characters`: A body has these characters.
* `FunctionalUnit.parts_of_body`: A body falls apart into its parts.
* `FunctionalUnit.printed_eq_of_body`: A body determines what is printed.
* `FunctionalUnit.render_printed`: What is printed determines the template.
-/

namespace DataflowCircuit

section Texts

/-- What is in no part and not in the separator is not in the joined text. -/
theorem notMem_intercalate (mark : Char) (sep : List Char) (parts : List (List Char))
    (hsep : mark ∉ sep) (hparts : ∀ cs ∈ parts, mark ∉ cs) : mark ∉ sep.intercalate parts := by
  induction parts with
  | nil => simp
  | cons cs rest ih =>
      rw [List.forall_mem_cons] at hparts
      cases rest with
      | nil => simpa using hparts.1
      | cons cs' rest =>
          rw [List.intercalate_cons_cons]
          simp [hsep, hparts.1, ih hparts.2]

/-- Lists with the same image under a map have the same image under every map
    that tells less apart. -/
theorem map_eq_of_map_eq {α β γ : Type} (f : α → β) (g : α → γ)
    (hfg : ∀ a b, f a = f b → g a = g b) (xs ys : List α) (h : xs.map f = ys.map f) :
    xs.map g = ys.map g := by
  induction xs generalizing ys with
  | nil =>
      cases ys with
      | nil => rfl
      | cons y ys => cases h
  | cons x xs ih =>
      cases ys with
      | nil => cases h
      | cons y ys =>
          rcases List.cons.inj h with ⟨hhead, htail⟩
          rw [List.map_cons, List.map_cons, hfg x y hhead, ih ys htail]

end Texts

section Operations

/-- An operand is written as its kind and its number. -/
theorem Operand.text_toList (o : Operand) :
    o.text.toList = match o with
      | .arg slot => 'x' :: Nat.toDigits 10 slot
      | .res index => 'r' :: 'e' :: 's' :: Nat.toDigits 10 index
      | .const value => Nat.toDigits 10 value := by
  cases o with
  | const value => exact Text.toString_toList value
  | _ =>
      simp only [text, String.toList_append, Text.toString_toList]
      rfl

/-- Operands are letters and digits. -/
theorem Operand.isAlphanum_text (o : Operand) : ∀ c ∈ o.text.toList, c.isAlphanum = true := by
  rw [text_toList]
  cases o with
  | arg slot =>
      rw [List.forall_mem_cons]
      exact ⟨by decide, isAlphanum_toDigits slot⟩
  | res index =>
      simp only [List.forall_mem_cons]
      exact ⟨by decide, by decide, by decide, isAlphanum_toDigits index⟩
  | const value => exact isAlphanum_toDigits value

/-- Operands are told apart by their texts. -/
theorem Operand.text_inj (o p : Operand) (h : o.text.toList = p.text.toList) : o = p := by
  -- A constant is written without a letter in front.
  have hletter : ∀ (c : Char) (cs : List Char) (n : Nat), c.isDigit = false →
      c :: cs ≠ Nat.toDigits 10 n := by
    intro c cs n hc heq
    have hdigit := Text.isDigit_toDigits n c (by rw [← heq]; exact List.mem_cons_self)
    rw [hc] at hdigit
    cases hdigit
  rw [text_toList, text_toList] at h
  cases o <;> cases p <;> simp only [List.cons.injEq, true_and] at h
  -- Operands of one kind differ in their numbers, and the others in the first character.
  all_goals first
    | exact congrArg _ (toDigits_inj _ _ h)
    | exact absurd h.1 (by decide)
    | exact absurd h (hletter _ _ _ (by decide))
    | exact absurd h.symm (hletter _ _ _ (by decide))

namespace Operation

/-- The words of an operation, as they stand between blanks. -/
def words : Operation → List (List Char)
  | .binary op lhs rhs => [lhs.text.toList, op.symbol.toList, rhs.text.toList]
  | .unary op arg => [op.symbol.toList ++ arg.text.toList]
  | .select cond then_ else_ =>
    [cond.text.toList, ['?'], then_.text.toList, [':'], else_.text.toList]
  | .forward arg => [arg.text.toList]

/-- An operation is its words with blanks between them. -/
theorem text_toList (op : Operation) : op.text.toList = [' '].intercalate op.words := by
  cases op <;> simp [text, words, List.intercalate]

/-- What separates words or statements is in no word. -/
theorem notMem_words (op : Operation) (mark : Char) (hmark : mark = ' ' ∨ mark = ';') :
    ∀ w ∈ op.words, mark ∉ w := by
  -- Operands are plain, and symbols are checked one by one.
  have hplain : mark.isAlphanum = false := by
    rcases hmark with rfl | rfl <;> decide
  have hoperand : ∀ o : Operand, mark ∉ o.text.toList := fun o =>
    notMem_of_isAlphanum mark hplain _ o.isAlphanum_text
  cases op with
  | binary op lhs rhs =>
      have hsymbol : mark ∉ op.symbol.toList := by
        rcases hmark with rfl | rfl <;> cases op <;> decide
      simp [words, hoperand, hsymbol]
  | unary op arg =>
      have hsymbol : mark ∉ op.symbol.toList := by
        rcases hmark with rfl | rfl <;> cases op <;> decide
      simp [words, hoperand, hsymbol]
  | select cond then_ else_ =>
      rcases hmark with rfl | rfl <;> simp [words, hoperand]
  | forward arg => simp [words, hoperand]

/-- The operation as it is written: logical not is written as complement. -/
def printed : Operation → Operation
  | .unary .not arg => .unary .compl arg
  | op => op

/-- Binary operators are told apart by their symbols. -/
theorem binarySymbol_inj (a b : BinOp) (h : a.symbol.toList = b.symbol.toList) : a = b := by
  cases a <;> cases b <;> first
    | rfl
    | exact absurd h (by decide)

/-- A unary operation is told from an operand by its first character, and from
    other unary operations by what is printed of it. -/
theorem printed_eq_of_unary (op op' : UnOp) (arg arg' : Operand)
    (h : op.symbol.toList ++ arg.text.toList = op'.symbol.toList ++ arg'.text.toList) :
    (unary op arg).printed = (unary op' arg').printed := by
  have hsymbol : ∀ op : UnOp, op.symbol.toList = [if op = .neg then '-' else '~'] := by
    intro op
    cases op <;> rfl
  rw [hsymbol, hsymbol, List.singleton_append, List.singleton_append, List.cons.injEq] at h
  rw [Operand.text_inj arg arg' h.2]
  cases op <;> cases op' <;> first
    | rfl
    | exact absurd h.1 (by decide)

/-- A unary operation starts with a symbol, which no operand has. -/
theorem unary_ne_operand (op : UnOp) (arg o : Operand) :
    op.symbol.toList ++ arg.text.toList ≠ o.text.toList := by
  intro h
  have hall := o.isAlphanum_text
  rw [← h] at hall
  cases op <;> exact absurd (hall _ List.mem_cons_self) (by decide)

/-- An operation is read back from its words. -/
theorem printed_eq_of_words (op op' : Operation) (h : op.words = op'.words) :
    op.printed = op'.printed := by
  cases op with
  | binary op lhs rhs =>
      cases op' with
      | binary op' lhs' rhs' =>
          simp only [words, List.cons.injEq, and_true] at h
          rw [lhs.text_inj lhs' h.1, binarySymbol_inj op op' h.2.1, rhs.text_inj rhs' h.2.2]
      | _ => simp [words] at h
  | select cond then_ else_ =>
      cases op' with
      | select cond' then_' else_' =>
          simp only [words, List.cons.injEq, and_true, true_and] at h
          rw [cond.text_inj cond' h.1, then_.text_inj then_' h.2.1, else_.text_inj else_' h.2.2]
      | _ => simp [words] at h
  | unary op arg =>
      cases op' with
      | unary op' arg' => exact printed_eq_of_unary op op' arg arg' (List.cons.inj h).1
      | forward arg' => exact absurd (List.cons.inj h).1 (unary_ne_operand op arg arg')
      | _ => simp [words] at h
  | forward arg =>
      cases op' with
      | forward arg' => rw [arg.text_inj arg' (List.cons.inj h).1]
      | unary op' arg' => exact absurd (List.cons.inj h).1.symm (unary_ne_operand op' arg' arg)
      | _ => simp [words] at h

/-- An operation is read back from its text. -/
theorem printed_eq_of_text (op op' : Operation) (h : op.text.toList = op'.text.toList) :
    op.printed = op'.printed := by
  refine printed_eq_of_words op op' ?_
  -- Symbols such as `|` and `<` occur in words, blanks do not.
  have hsplit : ∀ op : Operation, op.text.toList.splitOn ' ' = op.words := by
    intro op
    rw [text_toList]
    refine List.splitOn_intercalate ' ' (op.notMem_words ' ' (Or.inl rfl)) ?_
    cases op <;> simp [words]
  rw [← hsplit op, ← hsplit op', h]

end Operation

end Operations

section Statements

/-- A statement as it is printed. -/
def Statement.printed (st : Statement) : Statement :=
  ⟨st.index, st.op.printed, 0⟩

/-- An output as it is printed. -/
def UnitOutput.printed (o : UnitOutput) : UnitOutput :=
  { o with width := 0 }

/-- The characters of a statement: its number and the words of its operation. -/
def Statement.characters (st : Statement) : List Char :=
  'r' :: 'e' :: 's' :: (Nat.toDigits 10 st.index ++ ' ' ::
    ':' :: '=' :: ' ' :: [' '].intercalate st.op.words)

/-- A statement is written as its number and its operation. -/
theorem Statement.text_toList (st : Statement) : st.text.toList = st.characters := by
  unfold text characters
  simp only [String.toList_append, Text.toString_toList, List.append_assoc, Operation.text_toList]
  rfl

/-- What ends a statement is not in its text. -/
theorem Statement.semicolon_notMem (st : Statement) : ';' ∉ st.text.toList := by
  have hdigits := notMem_of_isAlphanum ';' (by decide) _ (isAlphanum_toDigits st.index)
  have hop : ';' ∉ [' '].intercalate st.op.words :=
    notMem_intercalate ';' _ _ (by decide) (st.op.notMem_words ';' (Or.inr rfl))
  rw [text_toList, characters]
  simp [hdigits, hop]

/-- A statement is read back from its text. -/
theorem Statement.printed_eq_of_text (st st' : Statement) (h : st.text = st'.text) :
    st.printed = st'.printed := by
  have hlist := congrArg String.toList h
  rw [text_toList, text_toList] at hlist
  simp only [characters, List.cons.injEq, true_and] at hlist
  have hblank := fun n => notMem_of_isAlphanum ' ' (by decide) _ (isAlphanum_toDigits n)
  -- The number ends at the first blank.
  rcases cutFirst_unique ' ' _ _ _ _ (hblank st.index) (hblank st'.index) hlist with
    ⟨hindex, hrest⟩
  simp only [List.cons.injEq, true_and, ← Operation.text_toList] at hrest
  unfold printed
  rw [toDigits_inj _ _ hindex, Operation.printed_eq_of_text _ _ hrest]

/-- What an output sends, as text. -/
def UnitOutput.tail (o : UnitOutput) : List Char :=
  (o.init.elim [] fun v => Nat.toDigits 10 v ++ [':']) ++
    'r' :: 'e' :: 's' :: Nat.toDigits 10 o.result

/-- The characters of an output at a position. -/
def UnitOutput.characters (position : Nat) (o : UnitOutput) : List Char :=
  'o' :: 'u' :: 't' :: (Nat.toDigits 10 position ++ '!' :: o.tail)

/-- An output is written as its position and what it sends. -/
theorem outputText_toList (position : Nat) (o : UnitOutput) :
    (FunctionalUnit.outputText position o).toList = o.characters position := by
  unfold FunctionalUnit.outputText UnitOutput.characters UnitOutput.tail
  cases o.init with
  | none =>
      simp only [String.toList_append, Text.toString_toList, List.append_assoc]
      rfl
  | some v =>
      simp only [String.toList_append, Text.toString_toList, List.append_assoc, Option.elim]
      rfl

/-- What separates outputs or the parts of a body is in no output. -/
theorem notMem_outputText (mark : Char) (hmark : mark = ',' ∨ mark = '|') (position : Nat)
    (o : UnitOutput) : mark ∉ (FunctionalUnit.outputText position o).toList := by
  have hplain : mark.isAlphanum = false := by
    rcases hmark with rfl | rfl <;> decide
  have hdigits := fun n => notMem_of_isAlphanum mark hplain _ (isAlphanum_toDigits n)
  rw [outputText_toList, UnitOutput.characters, UnitOutput.tail]
  cases o.init <;> rcases hmark with rfl | rfl <;> simp [hdigits]

/-- An output is read back from its text, whatever its position. -/
theorem UnitOutput.printed_eq_of_text (o o' : UnitOutput) (i i' : Nat)
    (h : FunctionalUnit.outputText i o = FunctionalUnit.outputText i' o') :
    o.printed = o'.printed := by
  have hlist := congrArg String.toList h
  rw [outputText_toList, outputText_toList] at hlist
  simp only [characters, List.cons.injEq, true_and] at hlist
  have hbang := fun n => notMem_of_isAlphanum '!' (by decide) _ (isAlphanum_toDigits n)
  -- The position is skipped: it ends at the first exclamation mark.
  have htail := (cutFirst_unique '!' _ _ _ _ (hbang i) (hbang i') hlist).2
  have hcolon := fun n => notMem_of_isAlphanum ':' (by decide) _ (isAlphanum_toDigits n)
  -- The token, if there is one, ends at a colon, and without one there is none.
  have hletters : ∀ n, ':' ∉ 'r' :: 'e' :: 's' :: Nat.toDigits 10 n := by
    intro n
    simp [hcolon n]
  rcases o with ⟨r, w, init⟩
  rcases o' with ⟨r', w', init'⟩
  cases init with
  | none =>
      cases init' with
      | none =>
          simp only [tail, Option.elim, List.nil_append, List.cons.injEq, true_and] at htail
          rw [toDigits_inj _ _ htail]
          rfl
      | some v' =>
          have hmem : ':' ∈ tail ⟨r, w, none⟩ := by
            rw [htail]
            simp [tail]
          exact absurd hmem (hletters r)
  | some v =>
      cases init' with
      | none =>
          have hmem : ':' ∈ tail ⟨r', w', none⟩ := by
            rw [← htail]
            simp [tail]
          exact absurd hmem (hletters r')
      | some v' =>
          simp only [tail, Option.elim, List.append_assoc, List.singleton_append] at htail
          rcases cutFirst_unique ':' _ _ _ _ (hcolon v) (hcolon v') htail with ⟨hv, hrest⟩
          simp only [List.cons.injEq, true_and] at hrest
          rw [toDigits_inj _ _ hv, toDigits_inj _ _ hrest]
          rfl

end Statements

namespace FunctionalUnit

/-- The part of a unit that is printed. -/
def printed (fu : FunctionalUnit) : FunctionalUnit where
  name := fu.name
  argWidths := List.replicate fu.argWidths.length 0
  statements := fu.statements.map Statement.printed
  outputs := fu.outputs.map UnitOutput.printed
  buffers := []

/-- The texts of the outputs in a body. -/
def outputTexts (fu : FunctionalUnit) : List String :=
  fu.outputs.zipIdx.map fun p => outputText p.2 p.1

/-- A body is written in three parts. -/
theorem body_toList (fu : FunctionalUnit) :
    fu.body.toList = Nat.toDigits 10 fu.argWidths.length ++
      '|' :: ((String.intercalate ";" (fu.statements.map Statement.text)).toList ++
        '|' :: (String.intercalate "," fu.outputTexts).toList) := by
  unfold body
  simp only [String.toList_append, Text.toString_toList, List.append_assoc]
  rfl

/-- The characters of a body, put together without its texts. Evaluating them takes
    far fewer steps than evaluating the body. -/
def characters (fu : FunctionalUnit) : List Char :=
  Nat.toDigits 10 fu.argWidths.length ++
    '|' :: ([';'].intercalate (fu.statements.map Statement.characters) ++
      '|' :: [','].intercalate (fu.outputs.zipIdx.map fun p => p.1.characters p.2))

/-- The characters are those of the body. -/
theorem body_characters (fu : FunctionalUnit) : fu.body.toList = fu.characters := by
  have hstatements : (fu.statements.map Statement.text).map String.toList
      = fu.statements.map Statement.characters := by
    rw [List.map_map]
    exact List.map_congr_left fun st _ => st.text_toList
  have houtputs : fu.outputTexts.map String.toList
      = fu.outputs.zipIdx.map fun p => p.1.characters p.2 := by
    rw [outputTexts, List.map_map]
    exact List.map_congr_left fun p _ => outputText_toList p.2 p.1
  rw [body_toList, String.toList_intercalate, String.toList_intercalate, hstatements, houtputs]
  rfl

/-- What separates outputs or the parts of a body is in no output. -/
theorem notMem_outputTexts (fu : FunctionalUnit) (mark : Char) (hmark : mark = ',' ∨ mark = '|') :
    ∀ t ∈ fu.outputTexts, mark ∉ t.toList := by
  intro t ht
  rcases List.mem_map.mp ht with ⟨p, _, rfl⟩
  exact notMem_outputText mark hmark p.2 p.1

/-- What separates the parts is not in the last one. -/
theorem bar_notMem_outputs (fu : FunctionalUnit) :
    '|' ∉ (String.intercalate "," fu.outputTexts).toList := by
  rw [String.toList_intercalate]
  refine notMem_intercalate '|' _ _ (by decide) fun cs hcs => ?_
  rcases List.mem_map.mp hcs with ⟨t, ht, rfl⟩
  exact fu.notMem_outputTexts '|' (Or.inr rfl) t ht

/-- A unit has an output. -/
theorem outputTexts_ne_nil (fu : FunctionalUnit) (h : fu.Spelled) : fu.outputTexts ≠ [] := by
  rcases h.name with ⟨ts, _, _, hlen⟩
  intro hnil
  have hzero := congrArg List.length hnil
  rw [outputTexts, List.length_map, List.length_zipIdx, List.length_nil] at hzero
  omega

/-- A body falls apart into the number of arguments, the texts of the statements
    and the texts of the outputs. -/
theorem parts_of_body (fu gu : FunctionalUnit) (hfu : fu.Spelled) (hgu : gu.Spelled)
    (h : fu.body = gu.body) : fu.argWidths.length = gu.argWidths.length ∧
      fu.statements.map Statement.text = gu.statements.map Statement.text ∧
      fu.outputTexts = gu.outputTexts := by
  have hlist := congrArg String.toList h
  rw [body_toList, body_toList] at hlist
  -- The first bar ends the number of arguments, and the last one the statements.
  have hbar := fun n => notMem_of_isAlphanum '|' (by decide) _ (isAlphanum_toDigits n)
  rcases cutFirst_unique '|' _ _ _ _ (hbar _) (hbar _) hlist with ⟨hargs, hrest⟩
  rcases cutLast_unique '|' _ _ _ _ fu.bar_notMem_outputs gu.bar_notMem_outputs hrest with
    ⟨hstatements, houtputs⟩
  refine ⟨toDigits_inj _ _ hargs, ?_, ?_⟩
  · refine intercalate_inj ';' ";" rfl _ _ ?_ ?_ ?_ ?_ (String.toList_injective hstatements)
    · simpa using hfu.stated
    · simpa using hgu.stated
    · simp [Statement.semicolon_notMem]
    · simp [Statement.semicolon_notMem]
  · exact intercalate_inj ',' "," rfl _ _ (fu.outputTexts_ne_nil hfu) (gu.outputTexts_ne_nil hgu)
      (fu.notMem_outputTexts ',' (Or.inl rfl)) (gu.notMem_outputTexts ',' (Or.inl rfl))
      (String.toList_injective houtputs)

/-- A body determines what is printed under a name. -/
theorem printed_eq_of_body (fu gu : FunctionalUnit) (hfu : fu.Spelled) (hgu : gu.Spelled)
    (hname : fu.name = gu.name) (hbody : fu.body = gu.body) : fu.printed = gu.printed := by
  rcases parts_of_body fu gu hfu hgu hbody with ⟨hargs, htexts, houtputs⟩
  have hstatements := map_eq_of_map_eq Statement.text Statement.printed
    (fun a b h => a.printed_eq_of_text b h) _ _ htexts
  have hnumbered := map_eq_of_map_eq (fun p : UnitOutput × Nat => outputText p.2 p.1)
    (fun p => p.1.printed) (fun a b h => a.1.printed_eq_of_text b.1 a.2 b.2 h) _ _ houtputs
  -- The positions in the texts are those in the list and say nothing new.
  have hall : ∀ os : List UnitOutput,
      (os.zipIdx.map fun p => p.1.printed) = os.map UnitOutput.printed := by
    intro os
    conv_rhs => rw [← List.zipIdx_map_fst 0 os, List.map_map]
    rfl
  rw [hall, hall] at hnumbered
  unfold printed
  rw [hname, hargs, hstatements, hnumbered]

/-- A template is printed from what is printed of its unit. -/
theorem render_printed (fu : FunctionalUnit) : fu.printed.render = fu.render := by
  -- Logical not and complement are both no comparisons, and both written as a tilde.
  have hbool : ∀ op : Operation, op.printed.isComparison = op.isComparison := by
    intro op
    cases op with
    | unary op arg => cases op <;> rfl
    | _ => rfl
  have htext : ∀ op : Operation, op.printed.text = op.text := by
    intro op
    cases op with
    | unary op arg => cases op <;> rfl
    | _ => rfl
  have hdecls : fu.printed.statements.map fu.printed.resultDecl
      = fu.statements.map fu.resultDecl := by
    simp [printed, resultDecl, resultParameter, Statement.printed, Statement.isBool, hbool]
  have hrefs : fu.printed.resultRef = fu.resultRef := by
    funext index
    unfold resultRef
    simp only [printed, List.getElem?_map]
    cases fu.statements[index]? <;> simp [Statement.printed, Statement.isBool, hbool]
  have hlines : (fu.printed.statements.map fun st => "      " ++ st.text ++ ";")
      = fu.statements.map fun st => "      " ++ st.text ++ ";" := by
    simp [printed, Statement.printed, Statement.text, htext]
  have houtputs : fu.printed.outputs.zipIdx
      = fu.outputs.zipIdx.map (Prod.map UnitOutput.printed id) := List.zipIdx_map
  have hlogs : (fu.printed.outputs.map fun o => s!"res{o.result}")
      = fu.outputs.map fun o => s!"res{o.result}" := by
    simp [printed, UnitOutput.printed]
  have hports : fu.printed.portList = fu.portList := by
    simp [portList, printed]
  have hparams : fu.printed.params.length = fu.params.length := by
    simp [params, printed]
  have hargs : fu.printed.argWidths.length = fu.argWidths.length := List.length_replicate
  -- Every piece of the text has been compared by now.
  unfold render
  simp only [hdecls, hlines, hrefs, hlogs, hports, hparams, hargs, houtputs, List.filterMap_map,
    List.map_map]
  rfl

end FunctionalUnit

end DataflowCircuit
