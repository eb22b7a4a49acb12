import DataflowCircuit.Process.Printer
import DataflowCircuit.Process.Resolve
import DataflowCircuit.Proofs.Source.Words

/-!
# Printed Expressions Are Read Back

The printer puts every compound operand in parentheses, so the text of an
expression is a chain of at most two operands, or a conditional of three, and
precedence never decides how it is read. What remains is where a text stops.
An operand stops in front of anything that neither continues a word nor opens
a call, since a channel can be called `int` and would be taken for a cast in
front of a parenthesis. An expression stops where no operator with an operand
follows: the arrow after a function starts with a minus, but no operand starts
with the rest of it.

The grammar reads leading unary operators as a list and the printer writes
them one inside the other, so the statement about operands splits a text into
the operators and the operand under them. Expressions and operands contain
each other, and both statements are proved in one induction.

## Main definitions

* `Expr.written`: The expression that is written for a resolved one.
* `Expr.Readable`: Literals fit into a word and names are names.
* `OperandEnd`, `ExprEnd`: An operand or an expression stops here.
* `ReadsOperand`: A text starts with an operand.

## Theorems

* `exprReads_and_operandReads`: Expressions and operands are read back.
* `reads_expr`: A printed expression is read back.
-/

namespace DataflowCircuit

namespace Expr

/-- The expression that the printer writes. -/
def written (s : Scope) : Expr → Source.Expr
  | .const v => .const v
  | .var id => .var (s.nameOf id)
  | .binary op lhs rhs => .binary op (lhs.written s) (rhs.written s)
  | .unary op arg => .unary op (arg.written s)
  | .query c t e => .query (c.written s) (t.written s) (e.written s)
  | .cast arg width => .intCast (arg.written s) width

/-- Every literal and width fits into a word and every name is the name of a
    channel. -/
def Readable (s : Scope) : Expr → Prop
  | .const v => v < UInt64.size
  | .var id => Source.IsName (s.nameOf id).toList
  | .binary _ lhs rhs => lhs.Readable s ∧ rhs.Readable s
  | .unary _ arg => arg.Readable s
  | .query c t e => c.Readable s ∧ t.Readable s ∧ e.Readable s
  | .cast arg width => arg.Readable s ∧ ∀ w ∈ width, w < UInt64.size

/-- The text of an expression. -/
def chars (s : Scope) (e : Expr) : List Char :=
  (e.print s).toList

/-- The text of an expression as an operand. -/
def operandChars (s : Scope) (e : Expr) : List Char :=
  (parens e.isCompound (e.print s)).toList

/-- The text of an optional width in a cast. -/
def widthChars : Option Nat → List Char
  | none => []
  | some w => ',' :: ' ' :: Nat.toDigits 10 w

section Texts

variable (s : Scope)

/-- A compound operand stands in parentheses. -/
theorem operandChars_compound (e : Expr) (h : e.isCompound = true) :
    e.operandChars s = '(' :: (e.chars s ++ [')']) := by
  simp [operandChars, chars, parens, h]

/-- Any other operand stands as it is. -/
theorem operandChars_simple (e : Expr) (h : e.isCompound = false) :
    e.operandChars s = e.chars s := by
  simp [operandChars, chars, parens, h]

theorem chars_const (n : Nat) : (const n).chars s = Nat.toDigits 10 n := by
  simp [chars, print]

theorem chars_var (id : ChannelId) : (var id).chars s = (s.nameOf id).toList := rfl

theorem chars_binary (op : BinOp) (l r : Expr) :
    (binary op l r).chars s
      = l.operandChars s ++ ' ' :: (op.symbol.toList ++ ' ' :: r.operandChars s) := by
  simp [chars, print, operandChars]

theorem chars_query (c t e : Expr) :
    (query c t e).chars s
      = c.operandChars s ++ " ? ".toList ++
        (t.operandChars s ++ " : ".toList ++ e.operandChars s) := by
  simp [chars, print, operandChars]

theorem chars_unary (op : UnOp) (e : Expr) :
    (unary op e).chars s = op.sourceSymbol.toList ++ e.operandChars s := by
  simp [chars, print, operandChars]

theorem chars_cast (e : Expr) (width : Option Nat) :
    (cast e width).chars s
      = "int(".toList ++ (e.chars s ++ (widthChars width ++ [')'])) := by
  cases width <;> simp [chars, print, widthChars]

end Texts

end Expr

namespace Source

open DataflowCircuit.Source.Parser

/-- An operand stops here: no word goes on and no call is opened. -/
structure OperandEnd (rest : List Char) : Prop where
  word : EndsWord rest
  call : Fails (literal "(") rest

/-- An expression stops here: no operator with an operand follows, and no
    conditional. -/
structure ExprEnd (rest : List Char) : Prop where
  operand : OperandEnd rest
  link : ∀ E, Fails (link E) rest
  branch : Fails (literal "?") rest

/-- The text `cs` starts with the operand `e` and goes on with `rest`. -/
def ReadsOperand (E : Reader (Checked Expr)) (cs : List Char) (e : Expr) (rest : List Char) :
    Prop :=
  ∃ ops core cs₁, Rounds unOp cs ops cs₁ ∧ Reads (primary E) cs₁ (.ok core) rest ∧
    applyPrefixes ops core = e

section Ends

/-- A character that is neither an operator nor part of a word ends an
    expression. -/
theorem exprEnd_of_char (c : Char) (rest : List Char) (hc : isSolid c = true)
    (hword : isTail c = false ∧ c ≠ '.' ∧ c ≠ '[') (hcall : '(' ≠ c) (hbranch : '?' ≠ c)
    (hop : binOp.run (c :: rest) = none) : ExprEnd (c :: rest) where
  operand :=
    { word := head_cons c rest hword
      call := fails_text "(" '(' c rest rfl hc hcall }
  link := fun _ => fails_bind (fails_solid c rest hc hop)
  branch := fails_text "?" '?' c rest rfl hc hbranch

/-- An expression stops at a closing parenthesis. -/
theorem exprEnd_paren (rest : List Char) : ExprEnd (')' :: rest) :=
  exprEnd_of_char ')' rest rfl (by decide) (by decide) (by decide) rfl

theorem exprEnd_comma (rest : List Char) : ExprEnd (',' :: rest) :=
  exprEnd_of_char ',' rest rfl (by decide) (by decide) (by decide) rfl

theorem exprEnd_bracket (rest : List Char) : ExprEnd (']' :: rest) :=
  exprEnd_of_char ']' rest rfl (by decide) (by decide) (by decide) rfl

/-- Blanks may stand in front of what ends an expression. -/
theorem ExprEnd.blank {rest : List Char} (h : ExprEnd rest) : ExprEnd (' ' :: rest) where
  operand :=
    { word := endsWord_blank rest
      call := fails_blank ' ' rfl h.operand.call }
  link := fun E => fails_blank ' ' rfl (h.link E)
  branch := fails_blank ' ' rfl h.branch

/-- An operand stops in front of a blank if no call is opened behind it. -/
theorem operandEnd_blank (cs : List Char) (c : Char) (w : List Char) (hskip : skip cs = c :: w)
    (hc : '(' ≠ c) : OperandEnd (' ' :: cs) where
  word := endsWord_blank cs
  call := by
    refine fails_blank ' ' rfl (fails_literal "(" ?_)
    -- Only the first character behind the blanks counts.
    rw [hskip]
    intro hstarts
    exact hc (List.cons_prefix_cons.mp hstarts).1

theorem skip_symbol (op : BinOp) (rest : List Char) :
    skip (op.symbol.toList ++ ' ' :: rest) = op.symbol.toList ++ ' ' :: rest := by
  cases op <;> exact skip_solid _ _ rfl rfl

/-- A binary operator is read in front of a blank, where no longer operator
    can be meant. -/
theorem reads_binOp (op : BinOp) (rest : List Char) :
    Reads binOp (' ' :: (op.symbol.toList ++ ' ' :: rest)) op (' ' :: rest) := by
  refine reads_blank ' ' rfl (reads_of_run _ ?_)
  rw [skip_symbol op rest]
  cases op <;> rfl

/-- An operand stops in front of an operator. -/
theorem operandEnd_symbol (op : BinOp) (rest : List Char) :
    OperandEnd (' ' :: (op.symbol.toList ++ ' ' :: rest)) := by
  have hskip := skip_symbol op rest
  cases op <;> exact operandEnd_blank _ _ _ hskip (by decide)

theorem operandEnd_question (rest : List Char) : OperandEnd (' ' :: '?' :: rest) :=
  operandEnd_blank _ '?' rest (skip_isSolid '?' rest rfl) (by decide)

/-- The first branch of a conditional stops at its colon. -/
theorem exprEnd_colon (rest : List Char) : ExprEnd (' ' :: ':' :: rest) where
  operand := operandEnd_blank _ ':' rest (skip_isSolid ':' rest rfl) (by decide)
  link := fun _ => fails_blank ' ' rfl (fails_bind (fails_solid ':' rest rfl rfl))
  branch := fails_blank ' ' rfl (fails_text "?" '?' ':' rest rfl rfl (by decide))

/-- No operand starts with a character that starts none of its parts. -/
theorem fails_operand (E : Reader (Checked Expr)) (c : Char) (rest : List Char)
    (hc : isSolid c = true) (hop : unOp.run (c :: rest) = none)
    (hprimary : (primary E).run (c :: rest) = none) : Fails (operand E) (c :: rest) := by
  -- The list of leading operators is empty, and then the primary is missing.
  have hops : Reads (repeated unOp) (c :: rest) [] (c :: rest) :=
    reads_repeated (Rounds.done _ (fails_solid c rest hc hop))
  exact fails_seq hops (fails_bind (fails_solid c rest hc hprimary))

/-- An arrow starts like a minus, but no operand follows. -/
theorem exprEnd_arrow (rest : List Char) : ExprEnd (' ' :: '-' :: '>' :: rest) where
  operand := operandEnd_blank _ '-' ('>' :: rest) (skip_isSolid '-' _ rfl) (by decide)
  link := fun E => by
    -- The minus is read, and then the operand that a link needs is missing.
    have hminus : Reads binOp ('-' :: '>' :: rest) .minus ('>' :: rest) :=
      reads_solid '-' _ rfl rfl
    exact fails_blank ' ' rfl (fails_seq hminus (fails_bind (fails_operand E '>' rest rfl rfl rfl)))
  branch := fails_blank ' ' rfl (fails_text "?" '?' '-' ('>' :: rest) rfl rfl (by decide))

end Ends

section Operands

variable (E : Reader (Checked Expr))

/-- A literal is read as one, because no cast starts with a digit. -/
theorem reads_primary_const (n : Nat) (rest : List Char) (hn : n < UInt64.size)
    (hrest : OperandEnd rest) :
    Reads (primary E) (Nat.toDigits 10 n ++ rest) (.ok (.const n)) rest := by
  have hrun := numLit_run n rest hn hrest.word
  rcases Text.toDigits_head n with ⟨c, cs, hcs, hc⟩
  have htail := isTail_of_isDigit c hc
  have hsolid := isSolid_of_isTail c htail
  have hi : 'i' ≠ c := by
    rintro rfl
    cases hc
  have hb : 'b' ≠ c := by
    rintro rfl
    cases hc
  rw [hcs] at hrun ⊢
  -- The casts are tried first.
  refine reads_orElse_right (fails_bind (fails_text "int" 'i' c _ rfl hsolid hi)) ?_
  refine reads_orElse_right (fails_bind (fails_text "bool" 'b' c _ rfl hsolid hb)) ?_
  exact reads_orElse_left (reads_map (Except.map Expr.const) (reads_solid c _ hsolid hrun))

/-- A reference is read as a channel, even one that is called like a cast. -/
theorem reads_primary_var (w rest : List Char) (hw : IsReference w) (hrest : OperandEnd rest) :
    Reads (primary E) (w ++ rest) (.ok (.var (String.ofList w))) rest := by
  -- A cast needs its parenthesis, which does not follow an operand.
  have hint : Fails (castInt E) (w ++ rest) :=
    fails_keyword "int" "(" '(' w rest _ _ (fun _ h => h) rfl rfl rfl hw hrest.word hrest.call
  have hbool : Fails (castBool E) (w ++ rest) :=
    fails_keyword "bool" "(" '(' w rest _ _ (fun _ h => h) rfl rfl rfl hw hrest.word hrest.call
  have hnumber : Fails numLit (w ++ rest) := by
    rcases isReference_cons w hw with ⟨c, cs, rfl, hc⟩
    exact fails_numLit c _ (not_isDigit_of_isHead c hc)
      (isSolid_of_isTail c (isTail_of_isHead c hc))
  refine reads_orElse_right hint (reads_orElse_right hbool ?_)
  refine reads_orElse_right (fails_bind hnumber) (reads_orElse_left ?_)
  exact reads_map (fun name => Except.ok (Expr.var name)) (reads_chanRef w rest hw hrest.word)

/-- An expression in parentheses is read after casts, literals and channels were
    refused. -/
theorem reads_primary_parens {cs cs₁ rest : List Char} {e : Expr}
    (he : Reads E cs (.ok e) cs₁) (hclose : Reads (literal ")") cs₁ () rest) :
    Reads (primary E) ('(' :: cs) (.ok e) rest := by
  have hread : Reads (parenthesized E) ('(' :: cs) (.ok e) rest :=
    reads_seq (reads_text "(" '(' _ rfl rfl) (reads_seq he (reads_return hclose))
  refine reads_orElse_right (fails_solid '(' _ rfl rfl) ?_
  refine reads_orElse_right (fails_solid '(' _ rfl rfl) ?_
  refine reads_orElse_right (fails_solid '(' _ rfl rfl) ?_
  refine reads_orElse_right (fails_solid '(' _ rfl rfl) ?_
  exact reads_orElse_left hread

/-- The width of a cast is read behind a comma, or there is none. -/
def castWidth : Reader (Option (Checked Nat)) :=
  optional (literal "," >>= fun _ => gap >>= fun _ => bitwidth)

theorem reads_castWidth (width : Option Nat) (hwidth : ∀ w ∈ width, w < UInt64.size)
    (rest : List Char) :
    Reads castWidth (Expr.widthChars width ++ ')' :: rest) (width.map .ok) (')' :: rest) := by
  cases width with
  | none => exact reads_optional_none (fails_bind (fails_solid ')' rest rfl rfl))
  | some w =>
      refine reads_optional (reads_seq (reads_text "," ',' _ rfl rfl) (reads_blank ' ' rfl ?_))
      exact reads_bitwidth w (')' :: rest) (hwidth w rfl) (head_cons ')' rest rfl)

/-- A cast is read from its parts. -/
theorem reads_primary_cast {cs cs₁ cs₂ cs₃ rest : List Char} {e : Expr} (width : Option Nat)
    (hopen : Reads (literal "(") cs () cs₁) (he : Reads E cs₁ (.ok e) cs₂)
    (hwidth : Reads castWidth cs₂ (width.map .ok) cs₃)
    (hclose : Reads (literal ")") cs₃ () rest) :
    Reads (primary E) ("int".toList ++ cs) (.ok (.intCast e width)) rest := by
  have hint : Reads (literal "int") ("int".toList ++ cs) () cs := reads_text "int" 'i' _ rfl rfl
  -- A cast is the first thing that is tried.
  refine reads_orElse_left ?_
  unfold castInt
  refine reads_rule _ (reads_seq hint (reads_seq hopen (reads_seq he (reads_seq hwidth ?_))))
  -- The value is put together in the same way with a width and without.
  cases width with
  | none => exact reads_map _ hclose
  | some w => exact reads_map _ hclose

/-- Operands are read with their leading operators. -/
theorem reads_operand {cs rest : List Char} {e : Expr} (h : ReadsOperand E cs e rest) :
    Reads (operand E) cs (.ok e) rest := by
  rcases h with ⟨ops, core, cs₁, hops, hcore, rfl⟩
  -- The operators are read as a list and put in front of the operand afterwards.
  exact reads_seq (reads_repeated hops) (reads_map (Except.map (applyPrefixes ops)) hcore)

theorem readsOperand_of_primary {rest : List Char} {e : Expr} (c : Char) (cs : List Char)
    (hc : isSolid c = true) (hop : unOp.run (c :: cs) = none)
    (he : Reads (primary E) (c :: cs) (.ok e) rest) : ReadsOperand E (c :: cs) e rest :=
  ⟨[], e, c :: cs, Rounds.done _ (fails_solid c cs hc hop), he, rfl⟩

/-- No word starts with a unary operator. -/
theorem unOp_run_none (c : Char) (rest : List Char) (hc : isTail c = true) :
    unOp.run (c :: rest) = none := by
  have hminus := (ne_of_isTail c '-' hc rfl).symm
  have htilde := (ne_of_isTail c '~' hc rfl).symm
  have hnot := (ne_of_isTail c '!' hc rfl).symm
  have hsolid := isSolid_of_isTail c hc
  have hfails : Fails unOp (c :: rest) :=
    fails_orElse (fails_bind (fails_text "-" '-' c rest rfl hsolid hminus))
      (fails_orElse (fails_bind (fails_text "~" '~' c rest rfl hsolid htilde))
        (fails_orElse (fails_bind (fails_text "!" '!' c rest rfl hsolid hnot)) fails_fail))
  unfold Fails at hfails
  rw [skip_isSolid c rest hsolid] at hfails
  exact hfails

/-- A word is read as an operand if it is read as one without operators. -/
theorem readsOperand_of_word {rest : List Char} {e : Expr} (c : Char) (cs : List Char)
    (hc : isTail c = true) (he : Reads (primary E) (c :: cs) (.ok e) rest) :
    ReadsOperand E (c :: cs) e rest :=
  readsOperand_of_primary E c cs (isSolid_of_isTail c hc) (unOp_run_none c cs hc) he

/-- A literal is an operand without operators. -/
theorem readsOperand_const (n : Nat) (rest : List Char) (hn : n < UInt64.size)
    (hrest : OperandEnd rest) : ReadsOperand E (Nat.toDigits 10 n ++ rest) (.const n) rest := by
  have hprimary := reads_primary_const E n rest hn hrest
  rcases Text.toDigits_head n with ⟨c, cs, hcs, hc⟩
  rw [hcs] at hprimary ⊢
  exact readsOperand_of_word E c _ (isTail_of_isDigit c hc) hprimary

/-- So is a channel. -/
theorem readsOperand_var (name : String) (rest : List Char) (hname : IsReference name.toList)
    (hrest : OperandEnd rest) : ReadsOperand E (name.toList ++ rest) (.var name) rest := by
  have hprimary := reads_primary_var E name.toList rest hname hrest
  rw [String.ofList_toList] at hprimary
  rcases isReference_cons _ hname with ⟨c, cs, hcs, hc⟩
  rw [hcs] at hprimary ⊢
  exact readsOperand_of_word E c _ (isTail_of_isHead c hc) hprimary

/-- Blanks may stand in front of an operand. -/
theorem readsOperand_blank {cs rest : List Char} {e : Expr} (he : ReadsOperand E cs e rest) :
    ReadsOperand E (' ' :: cs) e rest := by
  rcases he with ⟨ops, core, cs₁, hops, hcore, rfl⟩
  -- The blank belongs to whatever is read first: the operand, or its first operator.
  cases hops with
  | done cs hfail =>
      exact ⟨[], core, _, Rounds.done _ (fails_blank ' ' rfl hfail), reads_blank ' ' rfl hcore, rfl⟩
  | step cs op cs₂ ops cs' hread hlt hrest =>
      refine ⟨op :: ops, core, cs₁, Rounds.step _ _ _ _ _ (reads_blank ' ' rfl hread) ?_ hrest,
        hcore, rfl⟩
      rw [skip_space ' ' cs rfl]
      exact hlt

/-- An operator in front of an operand is read with it. -/
theorem readsOperand_unary {cs rest : List Char} {e : Expr} (op : UnOp)
    (he : ReadsOperand E cs e rest) :
    ReadsOperand E (op.sourceSymbol.toList ++ cs) (.unary op e) rest := by
  rcases he with ⟨ops, core, cs₁, hops, hcore, rfl⟩
  -- Every unary operator is a single character.
  have hsymbol : ∃ c, op.sourceSymbol.toList = [c] ∧ isSolid c = true ∧
      ∀ cs, unOp.run (c :: cs) = some (op, cs) := by
    cases op
    · exact ⟨'!', rfl, rfl, fun _ => rfl⟩
    · exact ⟨'-', rfl, rfl, fun _ => rfl⟩
    · exact ⟨'~', rfl, rfl, fun _ => rfl⟩
  rcases hsymbol with ⟨c, hc, hsolid, hrun⟩
  rw [hc]
  refine ⟨op :: ops, core, cs₁, rounds_cons ?_ ?_ hops, hcore, rfl⟩
  · exact reads_solid c cs hsolid (hrun cs)
  · change cs.length < (skip (c :: cs)).length
    rw [skip_isSolid c cs hsolid]
    exact Nat.lt_succ_self _

end Operands

section Chains

variable (E : Reader (Checked Expr))

/-- A chain of two operands nests as it stands. -/
theorem nest_single (op : BinOp) (e e' : Expr) : nest e [(op, e')] = .binary op e e' := by
  cases op <;> rfl

theorem fails_link_question (rest : List Char) : Fails (link E) (' ' :: '?' :: rest) :=
  fails_blank ' ' rfl (fails_bind (fails_solid '?' rest rfl rfl))

/-- A link is read in front of further links. -/
theorem rounds_link {cs cs₁ rest : List Char} {e : Expr} {links : List (Checked Link)} (op : BinOp)
    (he : ReadsOperand E (' ' :: cs) e cs₁) (hle : cs₁.length ≤ cs.length)
    (hlinks : Rounds (link E) cs₁ links rest) :
    Rounds (link E) (' ' :: (op.symbol.toList ++ ' ' :: cs)) (.ok (op, e) :: links) rest := by
  refine rounds_cons ?_ ?_ hlinks
  · exact reads_seq (reads_binOp op cs) (reads_map (Except.map (op, ·)) (reads_operand E he))
  -- A round has to take something off, and the operator is something.
  · rw [skip_space ' ' _ rfl, skip_symbol]
    simp only [List.length_append, List.length_cons]
    omega

/-- A chain is nested once it is read. -/
theorem reads_condExpr {cs cs₁ rest : List Char} {e : Expr} {links : List Link}
    (he : ReadsOperand E cs e cs₁) (hlinks : Rounds (link E) cs₁ (links.map .ok) rest) :
    Reads (condExpr E) cs (.ok (nest e links)) rest := by
  -- No operand has a flaw, so joining them gives back the links.
  have hvalue : (do
      let first ← (.ok e : Checked Expr)
      return nest first (← joined (links.map .ok)) : Checked Expr) = .ok (nest e links) := by
    rw [joined_map_ok]
    rfl
  unfold condExpr
  rw [← hvalue]
  exact reads_rule _ (reads_seq (reads_operand E he) (reads_map _ (reads_repeated hlinks)))

/-- A chain can be a single operand. -/
theorem reads_condExpr_operand {cs rest : List Char} {e : Expr} (he : ReadsOperand E cs e rest)
    (hlink : Fails (link E) rest) : Reads (condExpr E) cs (.ok e) rest := by
  rw [← nest_nil e]
  exact reads_condExpr E he (Rounds.done rest hlink)

/-- A chain can be two operands with an operator between them. -/
theorem reads_condExpr_binary {cs cs' rest : List Char} {e e' : Expr} (op : BinOp)
    (he : ReadsOperand E (cs ++ ' ' :: (op.symbol.toList ++ ' ' :: (cs' ++ rest))) e
      (' ' :: (op.symbol.toList ++ ' ' :: (cs' ++ rest))))
    (he' : ReadsOperand E (cs' ++ rest) e' rest) (hlink : Fails (link E) rest) :
    Reads (condExpr E) (cs ++ ' ' :: (op.symbol.toList ++ ' ' :: (cs' ++ rest)))
      (.ok (.binary op e e')) rest := by
  -- What the second operand leaves is no longer than what it was read from.
  have hle : rest.length ≤ (cs' ++ rest).length := by
    rw [List.length_append]
    omega
  rw [← nest_single op e e']
  exact reads_condExpr E he
    (rounds_link E op (readsOperand_blank E he') hle (Rounds.done rest hlink))

/-- A chain without branches after it is an expression. -/
theorem reads_expr_of_condExpr {cs rest : List Char} {e : Expr} (fuel : Nat)
    (he : Reads (condExpr (expr fuel)) cs (.ok e) rest) (hbranch : Fails (literal "?") rest) :
    Reads (expr (fuel + 1)) cs (.ok e) rest := by
  have hnone : Reads (optional (branches (expr fuel))) rest none rest :=
    reads_optional_none (fails_bind hbranch)
  rw [expr]
  exact reads_rule _ (reads_delay (reads_seq he (reads_map _ hnone)))

/-- An operand is an expression where one stops. -/
theorem reads_expr_of_operand {cs rest : List Char} {e : Expr} (fuel : Nat)
    (he : ReadsOperand (expr fuel) cs e rest) (hrest : ExprEnd rest) :
    Reads (expr (fuel + 1)) cs (.ok e) rest :=
  reads_expr_of_condExpr fuel (reads_condExpr_operand _ he (hrest.link _)) hrest.branch

/-- The branches of a conditional are read from their parts. -/
theorem reads_branches {cs cs₁ cs₂ cs₃ rest : List Char} {t e : Expr}
    (hquestion : Reads (literal "?") cs () cs₁) (ht : Reads E cs₁ (.ok t) cs₂)
    (hcolon : Reads (literal ":") cs₂ () cs₃) (he : Reads E cs₃ (.ok e) rest) :
    Reads (branches E) cs (.ok (t, e)) rest := by
  unfold branches
  exact reads_seq hquestion (reads_seq ht (reads_seq hcolon (reads_map _ he)))

/-- A chain with branches after it is a conditional. -/
theorem reads_expr_query {cs cs₁ rest : List Char} {c t e : Expr} (fuel : Nat)
    (hc : Reads (condExpr (expr fuel)) cs (.ok c) cs₁)
    (hbranches : Reads (branches (expr fuel)) cs₁ (.ok (t, e)) rest) :
    Reads (expr (fuel + 1)) cs (.ok (.query c t e)) rest := by
  rw [expr]
  exact reads_rule _ (reads_delay (reads_seq hc (reads_map _ (reads_optional hbranches))))

end Chains

section Printed

variable (s : Scope)

/-- The text of an expression is read back as an expression. -/
def ExprReads (e : DataflowCircuit.Expr) : Prop :=
  ∀ fuel rest, (e.chars s).length ≤ fuel → ExprEnd rest →
    Reads (expr (fuel + 1)) (e.chars s ++ rest) (.ok (e.written s)) rest

/-- The text of an operand is read back as an operand. -/
def OperandReads (e : DataflowCircuit.Expr) : Prop :=
  ∀ fuel rest, (e.operandChars s).length ≤ fuel → OperandEnd rest →
    ReadsOperand (expr fuel) (e.operandChars s ++ rest) (e.written s) rest

/-- An operand that stands without parentheses is an expression. -/
theorem exprReads_of_operandReads (e : DataflowCircuit.Expr) (hsimple : e.isCompound = false)
    (he : OperandReads s e) : ExprReads s e := by
  intro fuel rest hfuel hrest
  have hoperand := he fuel rest
  rw [Expr.operandChars_simple s e hsimple] at hoperand
  exact reads_expr_of_operand fuel (hoperand hfuel hrest.operand) hrest

/-- A compound expression is an operand in its parentheses. -/
theorem operandReads_of_exprReads (e : DataflowCircuit.Expr) (hcompound : e.isCompound = true)
    (he : ExprReads s e) : OperandReads s e := by
  intro fuel rest hfuel hrest
  rw [Expr.operandChars_compound s e hcompound] at hfuel ⊢
  simp only [List.length_cons, List.length_append, List.length_nil] at hfuel
  -- The parentheses pay for one more level of nesting.
  cases fuel with
  | zero => omega
  | succ fuel =>
      have hinner := he fuel (')' :: rest) (by omega) (exprEnd_paren rest)
      have hclose : Reads (literal ")") (')' :: rest) () rest := reads_text ")" ')' rest rfl rfl
      rw [List.cons_append, List.append_assoc]
      exact readsOperand_of_primary _ '(' _ rfl rfl (reads_primary_parens _ hinner hclose)

/-- The text of a literal is read back. -/
theorem operandReads_const (n : Nat) (hn : n < UInt64.size) : OperandReads s (.const n) := by
  intro fuel rest hfuel hrest
  rw [Expr.operandChars_simple s _ rfl, Expr.chars_const]
  exact readsOperand_const _ n rest hn hrest

/-- So is the name of a channel. -/
theorem operandReads_var (id : ChannelId) (hname : IsName (s.nameOf id).toList) :
    OperandReads s (.var id) := by
  intro fuel rest hfuel hrest
  rw [Expr.operandChars_simple s _ rfl, Expr.chars_var]
  exact readsOperand_var _ _ rest hname.reference hrest

/-- The text of a unary operation is its symbol and its operand. -/
theorem operandReads_unary (op : UnOp) (e : DataflowCircuit.Expr) (he : OperandReads s e) :
    OperandReads s (.unary op e) := by
  intro fuel rest hfuel hrest
  rw [Expr.operandChars_simple s _ rfl, Expr.chars_unary] at hfuel ⊢
  rw [List.length_append] at hfuel
  rw [List.append_assoc]
  exact readsOperand_unary _ op (he fuel rest (by omega) hrest)

/-- A cast holds an expression, and needs no parentheses of its own. -/
theorem operandReads_cast (e : DataflowCircuit.Expr) (width : Option Nat)
    (hwidth : ∀ w ∈ width, w < UInt64.size) (he : ExprReads s e) :
    OperandReads s (.cast e width) := by
  intro fuel rest hfuel hrest
  rw [Expr.operandChars_simple s _ rfl, Expr.chars_cast] at hfuel ⊢
  have hint : "int(".toList.length = 4 := rfl
  simp only [List.length_append, hint] at hfuel
  -- The name of the cast pays for the level of nesting.
  cases fuel with
  | zero => omega
  | succ fuel =>
      -- What stands in a cast ends at its comma or at its parenthesis.
      have hend : ExprEnd (Expr.widthChars width ++ ')' :: rest) := by
        cases width with
        | none => exact exprEnd_paren rest
        | some w => exact exprEnd_comma _
      have hopen : ∀ cs, Reads (literal "(") ('(' :: cs) () cs := fun cs =>
        reads_text "(" '(' cs rfl rfl
      have hclose : Reads (literal ")") (')' :: rest) () rest := reads_text ")" ')' rest rfl rfl
      have hassoc : "int(".toList ++ (e.chars s ++ (Expr.widthChars width ++ [')'])) ++ rest
          = "int".toList ++ '(' :: (e.chars s ++ (Expr.widthChars width ++ ')' :: rest)) := by
        simp
      rw [hassoc]
      exact readsOperand_of_primary _ 'i' _ rfl rfl (reads_primary_cast _ width (hopen _)
        (he fuel _ (by omega) hend) (reads_castWidth width hwidth rest) hclose)

/-- A binary operation is a chain of two operands. -/
theorem exprReads_binary (op : BinOp) (l r : DataflowCircuit.Expr) (hl : OperandReads s l)
    (hr : OperandReads s r) : ExprReads s (.binary op l r) := by
  intro fuel rest hfuel hrest
  rw [Expr.chars_binary] at hfuel ⊢
  simp only [List.length_append, List.length_cons] at hfuel
  have hassoc : l.operandChars s ++ ' ' :: (op.symbol.toList ++ ' ' :: r.operandChars s) ++ rest
      = l.operandChars s ++ ' ' :: (op.symbol.toList ++ ' ' :: (r.operandChars s ++ rest)) := by
    simp only [List.append_assoc, List.cons_append]
  rw [hassoc]
  -- Printed operands are enclosed, so the chain has one link.
  refine reads_expr_of_condExpr fuel ?_ hrest.branch
  exact reads_condExpr_binary _ op (hl fuel _ (by omega) (operandEnd_symbol op _))
    (hr fuel rest (by omega) hrest.operand) (hrest.link _)

/-- A conditional is a chain of one operand with branches behind it. -/
theorem exprReads_query (c t e : DataflowCircuit.Expr) (hc : OperandReads s c)
    (ht : OperandReads s t) (he : OperandReads s e) : ExprReads s (.query c t e) := by
  intro fuel rest hfuel hrest
  rw [Expr.chars_query] at hfuel ⊢
  have hquestion : " ? ".toList.length = 3 := rfl
  have hcolon : " : ".toList.length = 3 := rfl
  simp only [List.length_append, hquestion, hcolon] at hfuel
  cases fuel with
  | zero => omega
  | succ fuel =>
      have hassoc : c.operandChars s ++ " ? ".toList ++
            (t.operandChars s ++ " : ".toList ++ e.operandChars s) ++ rest
          = c.operandChars s ++ " ? ".toList ++
            (t.operandChars s ++ " : ".toList ++ (e.operandChars s ++ rest)) := by
        simp only [List.append_assoc]
      rw [hassoc]
      -- The branches are expressions of their own and have one unit of fuel less.
      have hthen := reads_expr_of_operand fuel
        (ht fuel (" : ".toList ++ (e.operandChars s ++ rest)) (by omega) (exprEnd_colon _).operand)
        (exprEnd_colon _)
      have helse := reads_expr_of_operand fuel (he fuel rest (by omega) hrest.operand) hrest
      -- The condition is an operand with all the fuel, in front of a question mark.
      have hcond := reads_condExpr_operand _ (hc (fuel + 1)
        (" ? ".toList ++ (t.operandChars s ++ " : ".toList ++ (e.operandChars s ++ rest)))
        (by omega) (operandEnd_question _)) (fails_link_question _ _)
      rw [← List.append_assoc] at hthen hcond
      exact reads_expr_query (fuel + 1) hcond (reads_branches _ (reads_spaced "?" '?' _ rfl rfl)
        hthen (reads_spaced ":" ':' _ rfl rfl) helse)

/-- Expressions and operands are read back. -/
theorem exprReads_and_operandReads (e : DataflowCircuit.Expr) (he : e.Readable s) :
    ExprReads s e ∧ OperandReads s e := by
  induction e with
  | const n =>
      have hread := operandReads_const s n he
      exact ⟨exprReads_of_operandReads s _ rfl hread, hread⟩
  | var id =>
      have hread := operandReads_var s id he
      exact ⟨exprReads_of_operandReads s _ rfl hread, hread⟩
  | binary op l r ihl ihr =>
      have hread := exprReads_binary s op l r (ihl he.1).2 (ihr he.2).2
      exact ⟨hread, operandReads_of_exprReads s _ rfl hread⟩
  -- Simple expressions are read as operands first, compound ones as expressions.
  | unary op e ih =>
      have hread := operandReads_unary s op e (ih he).2
      exact ⟨exprReads_of_operandReads s _ rfl hread, hread⟩
  | query c t e ihc iht ihe =>
      have hread := exprReads_query s c t e (ihc he.1).2 (iht he.2.1).2 (ihe he.2.2).2
      exact ⟨hread, operandReads_of_exprReads s _ rfl hread⟩
  | cast e width ih =>
      have hread := operandReads_cast s e width he.2 (ih he.1).1
      exact ⟨exprReads_of_operandReads s _ rfl hread, hread⟩

/-- A printed expression is read back, with any fuel above the length of its
    text. -/
theorem reads_expr (e : DataflowCircuit.Expr) (he : e.Readable s) (fuel : Nat)
    (rest : List Char) (hfuel : (e.chars s).length < fuel) (hrest : ExprEnd rest) :
    Reads (expr fuel) (e.chars s ++ rest) (.ok (e.written s)) rest := by
  cases fuel with
  | zero => omega
  | succ fuel => exact (exprReads_and_operandReads s e he).1 fuel rest (by omega) hrest

/-- The text of an expression starts with a solid character. -/
theorem chars_cons (e : DataflowCircuit.Expr) (he : e.Readable s) :
    ∃ c cs, e.chars s = c :: cs ∧ isSolid c = true := by
  -- As an operand a text starts as before, or with a parenthesis.
  have hoperand : ∀ l : DataflowCircuit.Expr, (∃ c cs, l.chars s = c :: cs ∧ isSolid c = true) →
      ∃ c cs, l.operandChars s = c :: cs ∧ isSolid c = true := by
    intro l hl
    cases hcompound : l.isCompound with
    | true => exact ⟨'(', _, Expr.operandChars_compound s l hcompound, rfl⟩
    | false =>
        rw [Expr.operandChars_simple s l hcompound]
        exact hl
  induction e with
  | const n =>
      rcases Text.toDigits_head n with ⟨c, cs, hcs, hc⟩
      rw [Expr.chars_const]
      exact ⟨c, cs, hcs, isSolid_of_isTail c (isTail_of_isDigit c hc)⟩
  | var id =>
      rcases isReference_cons _ (IsName.reference he) with ⟨c, cs, hcs, hc⟩
      exact ⟨c, cs, hcs, isSolid_of_isTail c (isTail_of_isHead c hc)⟩
  | binary op l r ihl ihr =>
      rcases hoperand l (ihl he.1) with ⟨c, cs, hcs, hc⟩
      rw [Expr.chars_binary, hcs]
      exact ⟨c, _, rfl, hc⟩
  | unary op e ih =>
      rw [Expr.chars_unary]
      cases op
      · exact ⟨'!', _, rfl, rfl⟩
      · exact ⟨'-', _, rfl, rfl⟩
      · exact ⟨'~', _, rfl, rfl⟩
  | query c t e ihc iht ihe =>
      rcases hoperand c (ihc he.1) with ⟨d, cs, hcs, hd⟩
      rw [Expr.chars_query, hcs]
      exact ⟨d, _, rfl, hd⟩
  | cast e width ih =>
      rw [Expr.chars_cast]
      exact ⟨'i', _, rfl, rfl⟩

end Printed

end Source

end DataflowCircuit
