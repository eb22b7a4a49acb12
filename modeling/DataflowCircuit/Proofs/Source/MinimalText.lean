import DataflowCircuit.Proofs.Source.Precedence
import DataflowCircuit.Proofs.Source.RoundTrip

/-!
# Text Without Superfluous Parentheses Is Read Back

An expression that is written with blanks between its tokens and with the
parentheses that the binding table asks for, and no others, is read back where a
function of a dataflow block has its expression.

The grammar knows operands and chains of them, and the writer knows how tightly
a place binds. What both have in common is the chain of an expression: its
tokens are those of its operands with operators between them, so a chain is read
link by link, and nesting the links is left to `nest_chain`. An expression has
two texts, one where anything may stand and one under a prefix operator, and in
between it is whichever chain the place leaves bare. The induction carries all
three: the operands of a chain come from the operands of the chains below it,
so that an operator never has to be read at a place where it has no text of its
own.

Every token stands behind a blank. An arrow is then never taken for a minus with
an operand, a cast never for a channel of the same name, and of two operators
that start alike the longer one is only read if it was written.

## Main definitions

* `Expr.Writable`: Numbers fit into words and channels are references.
* `spell`: Tokens with a blank before each.
* `functionTokens`, `programTokens`: A function, and a program of functions.
* `Expr.Recovered`: An expression is read back wherever it can stand.

## Theorems

* `rounds_links`: The links of a chain are read back.
* `recovered`: Every expression is read back wherever it can stand.
* `reads_functionTokens`: A function is read back.
* `parse_programTokens`: A program of functions is read back.
-/

namespace DataflowCircuit

namespace Source

open DataflowCircuit.Source.Parser

/-- Every number fits into a word and every name can be a reference. -/
def Expr.Writable : Expr → Prop
  | .const v => v < UInt64.size
  | .var name => IsReference name.toList
  | .binary _ lhs rhs => lhs.Writable ∧ rhs.Writable
  | .unary _ arg => arg.Writable
  | .query cond then_ else_ => cond.Writable ∧ then_.Writable ∧ else_.Writable
  | .intCast arg width => arg.Writable ∧ ∀ w ∈ width, w < UInt64.size
  | .boolCast arg => arg.Writable

/-- The text of tokens, each behind a blank. -/
def spell (tokens : List String) : List Char :=
  tokens.flatMap fun t => ' ' :: t.toList

/-- The first token comes first. -/
theorem spell_cons (t : String) (ts : List String) :
    spell (t :: ts) = ' ' :: (t.toList ++ spell ts) :=
  rfl

/-- Tokens are spelled one after another. -/
theorem spell_append (ts us : List String) : spell (ts ++ us) = spell ts ++ spell us :=
  List.flatMap_append

/-- A token is read behind its blank. -/
theorem reads_token (s : String) (c : Char) (rest : List Char) (hs : s.toList.head? = some c)
    (hc : isSolid c = true) : Reads (literal s) (' ' :: (s.toList ++ rest)) () rest :=
  reads_blank ' ' rfl (reads_text s c rest hs hc)

namespace Expr

/-- An expression has a token. -/
theorem tokens_ne_nil (e : Expr) (min : Nat) : e.tokens min ≠ [] := by
  cases e with
  | binary op lhs rhs => cases h : decide (rank op + 1 < min) <;> simp [tokens, enclose, h]
  | query c t e => cases h : decide (0 < min) <;> simp [tokens, enclose, h]
  | _ => simp [tokens]

/-- The text of an expression starts with a blank. -/
theorem spell_tokens (e : Expr) (min : Nat) : ∃ cs, spell (e.tokens min) = ' ' :: cs := by
  rcases List.exists_cons_of_ne_nil (e.tokens_ne_nil min) with ⟨t, ts, hts⟩
  rw [hts, spell_cons]
  exact ⟨_, rfl⟩

/-- The text of an expression is read back where anything may stand. -/
def ReadsWhole (e : Expr) : Prop :=
  ∀ fuel rest, (spell (e.tokens 0)).length ≤ fuel → ExprEnd rest →
    Reads (expr (fuel + 1)) (spell (e.tokens 0) ++ rest) (.ok e) rest

/-- The text of an expression is read back under a prefix operator. -/
def ReadsTight (e : Expr) : Prop :=
  ∀ fuel rest, (spell (e.tokens prefixBinding)).length ≤ fuel → OperandEnd rest →
    ReadsOperand (expr fuel) (spell (e.tokens prefixBinding) ++ rest) e rest

/-- An expression is read back wherever it can stand: where anything may stand,
    under a prefix operator, and as a chain in between. -/
structure Recovered (e : Expr) : Prop where
  whole : e.ReadsWhole
  tight : e.ReadsTight
  first : ∀ min, (e.chain min).1.ReadsTight
  links : ∀ min, ∀ l ∈ (e.chain min).2, l.2.ReadsTight

end Expr

section Chains

/-- The links of a chain are read back, and the operand before them ends where
    they begin. -/
theorem rounds_links (fuel : Nat) (links : List Link) (hlinks : ∀ l ∈ links, l.2.ReadsTight)
    (rest : List Char) (hfuel : (spell (links.flatMap Expr.linkTokens)).length ≤ fuel)
    (hrest : OperandEnd rest) (hstop : Fails (link (expr fuel)) rest) :
    Rounds (link (expr fuel)) (spell (links.flatMap Expr.linkTokens) ++ rest) (links.map .ok) rest ∧
      OperandEnd (spell (links.flatMap Expr.linkTokens) ++ rest) := by
  induction links with
  | nil => exact ⟨Rounds.done rest hstop, hrest⟩
  | cons l links ih =>
      rcases l with ⟨op, e⟩
      rcases e.spell_tokens Expr.prefixBinding with ⟨cs, hcs⟩
      rw [List.forall_mem_cons] at hlinks
      have htext : spell (((op, e) :: links).flatMap Expr.linkTokens)
          = ' ' :: (op.symbol.toList ++ ' ' :: (cs ++ spell (links.flatMap Expr.linkTokens))) := by
        rw [List.flatMap_cons, Expr.linkTokens, List.cons_append, spell_cons, spell_append, hcs]
        rfl
      rw [htext] at hfuel ⊢
      simp only [List.length_cons, List.length_append] at hfuel
      rcases ih hlinks.2 (by omega) with ⟨htail, hend⟩
      -- The operand ends in front of the next link, or of what follows the chain.
      have hoperand := hlinks.1 fuel _ (by rw [hcs, List.length_cons]; omega) hend
      rw [hcs] at hoperand
      have hassoc : ' ' :: (op.symbol.toList ++ ' ' ::
            (cs ++ spell (links.flatMap Expr.linkTokens))) ++ rest
          = ' ' :: (op.symbol.toList ++ ' ' ::
            (cs ++ (spell (links.flatMap Expr.linkTokens) ++ rest))) := by
        simp only [List.cons_append, List.append_assoc]
      rw [hassoc]
      -- A round leaves a shorter text.
      have hle : (spell (links.flatMap Expr.linkTokens) ++ rest).length
          ≤ (cs ++ (spell (links.flatMap Expr.linkTokens) ++ rest)).length := by
        simp only [List.length_append]
        omega
      exact ⟨rounds_link _ op hoperand hle htail, operandEnd_symbol op _⟩

/-- A chain is read as the expression that it is the chain of. -/
theorem reads_condExpr_tokens (e : Expr) (hfirst : (e.chain 1).1.ReadsTight)
    (hlinks : ∀ l ∈ (e.chain 1).2, l.2.ReadsTight) (fuel : Nat) (rest : List Char)
    (hfuel : (spell (e.tokens 1)).length ≤ fuel) (hrest : OperandEnd rest)
    (hstop : Fails (link (expr fuel)) rest) :
    Reads (condExpr (expr fuel)) (spell (e.tokens 1) ++ rest) (.ok e) rest := by
  rw [e.tokens_chain 1 Nat.one_pos, spell_append] at hfuel ⊢
  rw [List.length_append] at hfuel
  rcases rounds_links fuel _ hlinks rest (by omega) hrest hstop with ⟨hrounds, hend⟩
  have hread := reads_condExpr _ (hfirst fuel _ (by omega) hend) hrounds
  -- The reader nests the links, which undoes the chain.
  rw [nest_chain] at hread
  rw [List.append_assoc]
  exact hread

/-- What is written alike where anything may stand and in a chain is read as a
    chain. -/
theorem readsWhole_of_chain (e : Expr) (htokens : e.tokens 0 = e.tokens 1)
    (hfirst : (e.chain 1).1.ReadsTight) (hlinks : ∀ l ∈ (e.chain 1).2, l.2.ReadsTight) :
    e.ReadsWhole := by
  intro fuel rest hfuel hrest
  rw [htokens] at hfuel ⊢
  exact reads_expr_of_condExpr fuel (reads_condExpr_tokens e hfirst hlinks fuel rest hfuel
    hrest.operand (hrest.link _)) hrest.branch

end Chains

section Operands

/-- Parentheses make an operand of any expression. -/
theorem readsTight_of_whole (e : Expr)
    (htokens : e.tokens Expr.prefixBinding = "(" :: e.tokens 0 ++ [")"]) (he : e.ReadsWhole) :
    e.ReadsTight := by
  intro fuel rest hfuel hrest
  have htext : ∀ r, spell (e.tokens Expr.prefixBinding) ++ r
      = ' ' :: '(' :: (spell (e.tokens 0) ++ ' ' :: (")".toList ++ r)) := by
    intro r
    rw [htokens]
    simp [spell]
  have hlen := congrArg List.length (htext [])
  simp only [List.append_nil, List.length_cons, List.length_append] at hlen
  rw [htext]
  -- The parentheses pay for one more level of nesting.
  cases fuel with
  | zero => omega
  | succ fuel =>
      have hinner := he fuel (' ' :: ')' :: rest) (by omega) (exprEnd_paren rest).blank
      exact readsOperand_blank _ (readsOperand_of_primary _ '(' _ rfl rfl
        (reads_primary_parens _ hinner (reads_token ")" ')' rest rfl rfl)))

/-- A number is an operand. -/
theorem readsTight_const (v : Nat) (hv : v < UInt64.size) : (Expr.const v).ReadsTight := by
  intro fuel rest hfuel hrest
  have htext : spell ((Expr.const v).tokens Expr.prefixBinding) ++ rest
      = ' ' :: (Nat.toDigits 10 v ++ rest) := by
    rw [Expr.tokens, spell_cons, Text.toString_toList]
    simp [spell]
  rw [htext]
  exact readsOperand_blank _ (readsOperand_const _ v rest hv hrest)

/-- So is a channel. -/
theorem readsTight_var (name : String) (hname : IsReference name.toList) :
    (Expr.var name).ReadsTight := by
  intro fuel rest hfuel hrest
  have htext : spell ((Expr.var name).tokens Expr.prefixBinding) ++ rest
      = ' ' :: (name.toList ++ rest) := by
    simp [Expr.tokens, spell]
  rw [htext]
  exact readsOperand_blank _ (readsOperand_var _ name rest hname hrest)

/-- And a prefix operator with an operand behind it. -/
theorem readsTight_unary (op : UnOp) (e : Expr) (he : e.ReadsTight) :
    (Expr.unary op e).ReadsTight := by
  intro fuel rest hfuel hrest
  rw [Expr.tokens, spell_cons] at hfuel ⊢
  simp only [List.length_cons, List.length_append] at hfuel
  rw [List.cons_append, List.append_assoc]
  exact readsOperand_blank _ (readsOperand_unary _ op (he fuel rest (by omega) hrest))

/-- A cast to a bit is read from its parts. -/
theorem reads_primary_castBool (E : Reader (Checked Expr)) {cs cs₁ cs₂ rest : List Char} {e : Expr}
    (hopen : Reads (literal "(") cs () cs₁) (he : Reads E cs₁ (.ok e) cs₂)
    (hclose : Reads (literal ")") cs₂ () rest) :
    Reads (primary E) ("bool".toList ++ cs) (.ok (.boolCast e)) rest := by
  have hbool : Reads (literal "bool") ("bool".toList ++ cs) () cs := reads_text "bool" 'b' _ rfl rfl
  have hint : Fails (castInt E) ("bool".toList ++ cs) :=
    fails_rule _ (fails_bind (fails_text "int" 'i' 'b' _ rfl rfl (by decide)))
  refine reads_orElse_right hint (reads_orElse_left ?_)
  unfold castBool
  exact reads_rule _ (reads_seq hbool (reads_seq hopen (reads_seq he (reads_map _ hclose))))

/-- The width of a cast is read back, if there is one. -/
theorem reads_castWidth_tokens (width : Option Nat) (hwidth : ∀ w ∈ width, w < UInt64.size)
    (rest : List Char) :
    Reads castWidth (spell (widthTokens width) ++ rest) (width.map .ok) (' ' :: ')' :: rest) := by
  cases width with
  | none =>
      -- No comma stands in front of the parenthesis.
      exact reads_optional_none (fails_blank ' ' rfl (fails_bind (fails_solid ')' rest rfl rfl)))
  | some w =>
      have htext : spell (widthTokens (some w)) ++ rest
          = ' ' :: (",".toList ++ ' ' :: (Nat.toDigits 10 w ++ ' ' :: ')' :: rest)) := by
        rw [widthTokens, spell_cons, spell_cons, Text.toString_toList]
        simp [spell]
      rw [htext]
      refine reads_optional (reads_seq (reads_token "," ',' _ rfl rfl) (reads_blank ' ' rfl ?_))
      exact reads_bitwidth w _ (hwidth w rfl) (head_cons ' ' _ rfl)

/-- A cast to a width is an operand, and anything may stand in it. -/
theorem readsTight_intCast (e : Expr) (width : Option Nat) (hwidth : ∀ w ∈ width, w < UInt64.size)
    (he : e.ReadsWhole) : (Expr.intCast e width).ReadsTight := by
  intro fuel rest hfuel hrest
  have htext : spell ((Expr.intCast e width).tokens Expr.prefixBinding) ++ rest
      = ' ' :: ("int".toList ++ ' ' :: ("(".toList ++
        (spell (e.tokens 0) ++ (spell (widthTokens width) ++ rest)))) := by
    rw [Expr.tokens, spell_cons, spell_cons, spell_append]
    simp only [List.cons_append, List.append_assoc]
  rw [Expr.tokens, spell_cons, spell_cons, spell_append] at hfuel
  simp only [List.length_cons, List.length_append] at hfuel
  rw [htext]
  cases fuel with
  | zero => omega
  | succ fuel =>
      -- What stands in a cast ends at its comma or at its parenthesis.
      have hend : ExprEnd (spell (widthTokens width) ++ rest) := by
        cases width with
        | none => exact (exprEnd_paren rest).blank
        | some w => exact (exprEnd_comma _).blank
      exact readsOperand_blank _ (readsOperand_of_primary _ 'i' _ rfl rfl
        (reads_primary_cast _ width (reads_token "(" '(' _ rfl rfl) (he fuel _ (by omega) hend)
        (reads_castWidth_tokens width hwidth rest) (reads_token ")" ')' rest rfl rfl)))

/-- So is a cast to a bit. -/
theorem readsTight_boolCast (e : Expr) (he : e.ReadsWhole) : (Expr.boolCast e).ReadsTight := by
  intro fuel rest hfuel hrest
  have htext : spell ((Expr.boolCast e).tokens Expr.prefixBinding) ++ rest
      = ' ' :: ("bool".toList ++ ' ' :: ("(".toList ++
        (spell (e.tokens 0) ++ ' ' :: (")".toList ++ rest)))) := by
    rw [Expr.tokens, spell_cons, spell_cons, spell_append, spell_cons]
    simp [spell]
  rw [Expr.tokens, spell_cons, spell_cons, spell_append] at hfuel
  simp only [List.length_cons, List.length_append] at hfuel
  rw [htext]
  cases fuel with
  | zero => omega
  | succ fuel =>
      have hinner := he fuel _ (by omega) (exprEnd_paren rest).blank
      exact readsOperand_blank _ (readsOperand_of_primary _ 'b' _ rfl rfl (reads_primary_castBool _
        (reads_token "(" '(' _ rfl rfl) hinner (reads_token ")" ')' rest rfl rfl)))

end Operands

section Expressions

/-- A conditional is read back from a chain and two branches. -/
theorem readsWhole_query (c t e : Expr) (hfirst : (c.chain 1).1.ReadsTight)
    (hlinks : ∀ l ∈ (c.chain 1).2, l.2.ReadsTight) (ht : t.ReadsWhole) (he : e.ReadsWhole) :
    (Expr.query c t e).ReadsWhole := by
  intro fuel rest hfuel hrest
  have htext : spell ((Expr.query c t e).tokens 0) ++ rest
      = spell (c.tokens 1) ++ ' ' :: ("?".toList ++ (spell (t.tokens 0) ++
        ' ' :: (":".toList ++ (spell (e.tokens 0) ++ rest)))) := by
    simp only [Expr.tokens_query_bare, spell_append, spell_cons, List.cons_append,
      List.append_assoc]
  have hlen := congrArg List.length htext
  simp only [List.length_cons, List.length_append] at hlen
  rw [htext]
  cases fuel with
  | zero => omega
  | succ fuel =>
      have hcond := reads_condExpr_tokens c hfirst hlinks (fuel + 1)
        (' ' :: '?' :: (spell (t.tokens 0) ++ ' ' :: (":".toList ++ (spell (e.tokens 0) ++ rest))))
        (by omega) (operandEnd_question _) (fails_link_question _ _)
      -- The branches are expressions of their own and have one unit of fuel less.
      exact reads_expr_query (fuel + 1) hcond (reads_branches _ (reads_token "?" '?' _ rfl rfl)
        (ht fuel _ (by omega) (exprEnd_colon _)) (reads_token ":" ':' _ rfl rfl)
        (he fuel rest (by omega) hrest))

namespace Expr

/-- An operand is its own chain, and is written alike everywhere. -/
theorem recovered_of_operand (e : Expr) (hchain : ∀ min, e.chain min = (e, []))
    (htokens : e.tokens 0 = e.tokens 1) (he : e.ReadsTight) : e.Recovered := by
  have hfirst : ∀ min, (e.chain min).1.ReadsTight := by
    intro min
    rw [hchain]
    exact he
  have hlinks : ∀ min, ∀ l ∈ (e.chain min).2, l.2.ReadsTight := by
    intro min l hl
    rw [hchain] at hl
    cases hl
  exact ⟨readsWhole_of_chain e htokens (hfirst 1) (hlinks 1), he, hfirst, hlinks⟩

/-- The operands of a binary operation bring the chains that it joins. -/
theorem recovered_binary (op : BinOp) (lhs rhs : Expr) (hl : lhs.Recovered) (hr : rhs.Recovered) :
    (binary op lhs rhs).Recovered := by
  -- Left bare, the operator joins the chains of its operands.
  have hbare : ∀ min, min ≤ rank op + 1 → ((binary op lhs rhs).chain min).1.ReadsTight ∧
      ∀ l ∈ ((binary op lhs rhs).chain min).2, l.2.ReadsTight := by
    intro min hmin
    rw [chain_of_tight min op lhs rhs hmin, List.forall_mem_append, List.forall_mem_cons]
    exact ⟨hl.first _, hl.links _, hr.first _, hr.links _⟩
  have hwhole : (binary op lhs rhs).ReadsWhole := by
    rcases hbare 1 (Nat.le_add_left 1 _) with ⟨hfirst, hlinks⟩
    refine readsWhole_of_chain _ ?_ hfirst hlinks
    rw [tokens_binary_bare 0 op lhs rhs (Nat.zero_le _),
      tokens_binary_bare 1 op lhs rhs (Nat.le_add_left 1 _)]
  have htight : (binary op lhs rhs).ReadsTight :=
    readsTight_of_whole _ (tokens_binary_enclosed _ op lhs rhs
      (Nat.succ_lt_succ (rank_lt_levels op))) hwhole
  -- A place that binds tighter than the operator finds it in parentheses.
  have hchain : ∀ min, ((binary op lhs rhs).chain min).1.ReadsTight ∧
      ∀ l ∈ ((binary op lhs rhs).chain min).2, l.2.ReadsTight := by
    intro min
    by_cases hmin : rank op + 1 < min
    · rw [chain_of_loose min op lhs rhs hmin]
      exact ⟨htight, fun l hl => absurd hl List.not_mem_nil⟩
    · exact hbare min (Nat.le_of_not_lt hmin)
  exact ⟨hwhole, htight, fun min => (hchain min).1, fun min => (hchain min).2⟩

/-- A conditional is its own chain, and an operand only in parentheses. -/
theorem recovered_query (c t e : Expr) (hc : c.Recovered) (ht : t.Recovered) (he : e.Recovered) :
    (query c t e).Recovered := by
  have hwhole := readsWhole_query c t e (hc.first 1) (hc.links 1) ht.whole he.whole
  have htight : (query c t e).ReadsTight :=
    readsTight_of_whole _ (tokens_query_enclosed prefixBinding c t e (by decide)) hwhole
  exact ⟨hwhole, htight, fun _ => htight, fun _ l hl => absurd hl List.not_mem_nil⟩

/-- Every expression is read back wherever it can stand. -/
theorem recovered (e : Expr) (he : e.Writable) : e.Recovered := by
  induction e with
  | const v => exact recovered_of_operand _ (fun _ => rfl) rfl (readsTight_const v he)
  | var name => exact recovered_of_operand _ (fun _ => rfl) rfl (readsTight_var name he)
  | binary op lhs rhs ihl ihr => exact recovered_binary op lhs rhs (ihl he.1) (ihr he.2)
  | unary op e ih =>
      exact recovered_of_operand _ (fun _ => rfl) rfl (readsTight_unary op e (ih he).tight)
  | query c t e ihc iht ihe =>
      exact recovered_query c t e (ihc he.1) (iht he.2.1) (ihe he.2.2)
  | intCast e width ih =>
      exact recovered_of_operand _ (fun _ => rfl) rfl
        (readsTight_intCast e width he.2 (ih he.1).whole)
  | boolCast e ih =>
      exact recovered_of_operand _ (fun _ => rfl) rfl (readsTight_boolCast e (ih he).whole)

end Expr

/-- An expression is read back, with any fuel above the length of its text. -/
theorem reads_expr_tokens (e : Expr) (he : e.Writable) (fuel : Nat) (rest : List Char)
    (hfuel : (spell (e.tokens 0)).length < fuel) (hrest : ExprEnd rest) :
    Reads (expr fuel) (spell (e.tokens 0) ++ rest) (.ok e) rest := by
  cases fuel with
  | zero => omega
  | succ fuel => exact (Expr.recovered e he).whole fuel rest (by omega) hrest

end Expressions

section Statements

/-- The tokens of a buffer annotation. -/
def bufferTokens : Option (Buffer Expr) → List String
  | none => []
  | some ⟨depth, none⟩ => ["[", toString depth, "]"]
  | some ⟨depth, some e⟩ => "[" :: toString depth :: "," :: (e.tokens 0 ++ ["]"])

/-- The tokens of a function. -/
def functionTokens (f : Func String Expr) : List String :=
  f.expr.tokens 0 ++ "->" :: (bufferTokens f.buffer ++ [targetText f.output, ";"])

/-- The tokens of a program that is one process of functions. -/
def programTokens (name : String) (functions : List (Func String Expr)) : List String :=
  "defproc" :: name :: "(" :: ")" :: "\x7b" :: "dataflow" :: "\x7b" ::
    (functions.flatMap functionTokens ++ ["\x7d", "\x7d"])

/-- A blank in front starts no block either. -/
theorem NoBlock.blank {cs : List Char} (h : NoBlock cs) : NoBlock (' ' :: cs) where
  cluster := fun k => fails_blank ' ' rfl (h.cluster k)
  brace := fails_blank ' ' rfl h.brace

/-- The text of an expression starts with a solid character, and is taken for no
    block if no brace follows it. -/
theorem noBlock_tokens (e : Expr) (he : e.Writable) (min : Nat) (rest : List Char)
    (hword : EndsWord rest) (hrest : Fails (literal "\x7b") rest) :
    NoBlock (spell (e.tokens min) ++ rest) ∧
      ∃ c cs, spell (e.tokens min) = ' ' :: c :: cs ∧ isSolid c = true := by
  -- Whatever starts with another character than a brace or the `d` of the keyword.
  have hchar : ∀ (c : Char) (cs rest : List Char), isSolid c = true → 'd' ≠ c → '\x7b' ≠ c →
      NoBlock (' ' :: c :: cs ++ rest) ∧
        ∃ d ds, ' ' :: c :: cs = ' ' :: d :: ds ∧ isSolid d = true :=
    fun c cs rest hc hd hbrace =>
      ⟨(noBlock_of_char c (cs ++ rest) hc hd hbrace).blank, c, cs, rfl, hc⟩
  -- What follows the first operand changes along the way, so `rest` is general.
  induction e generalizing min rest with
  | const v =>
      rcases Text.toDigits_head v with ⟨c, cs, hcs, hc⟩
      rw [Expr.tokens, spell_cons, Text.toString_toList, hcs]
      refine hchar c _ rest (isSolid_of_isTail c (isTail_of_isDigit c hc)) ?_
        (ne_of_isTail c '\x7b' (isTail_of_isDigit c hc) rfl).symm
      rintro rfl
      cases hc
  | var name =>
      rcases isReference_cons _ he with ⟨c, cs, hcs, hc⟩
      have htext : spell ((Expr.var name).tokens min) = ' ' :: name.toList := by
        simp [Expr.tokens, spell]
      rw [htext]
      refine ⟨(noBlock_of_name _ rest he hword hrest).blank, c, cs, ?_,
        isSolid_of_isTail c (isTail_of_isHead c hc)⟩
      rw [hcs]
  | binary op lhs rhs ihl _ =>
      by_cases hmin : rank op + 1 < min
      · rw [Expr.tokens_binary_enclosed min op lhs rhs hmin]
        exact hchar '(' _ rest rfl (by decide) (by decide)
      · rcases rhs.spell_tokens (rank op + 2) with ⟨cs, hcs⟩
        have hlhs := ihl he.1 (rank op + 1) (' ' :: (op.symbol.toList ++ ' ' :: (cs ++ rest)))
          (endsWord_blank _) (fails_brace_symbol op _)
        rcases hlhs with ⟨hblock, c, ds, hds, hc⟩
        rw [Expr.tokens_binary_bare min op lhs rhs (Nat.le_of_not_lt hmin), spell_append,
          spell_cons, hcs, List.append_assoc, List.cons_append, List.append_assoc]
        refine ⟨hblock, c, ds ++ ' ' :: (op.symbol.toList ++ ' ' :: cs), ?_, hc⟩
        rw [hds]
        rfl
  | unary op e ih =>
      rw [Expr.tokens, spell_cons]
      cases op
      · exact hchar '!' _ rest rfl (by decide) (by decide)
      · exact hchar '-' _ rest rfl (by decide) (by decide)
      · exact hchar '~' _ rest rfl (by decide) (by decide)
  | query c t e ihc _ _ =>
      cases min with
      | succ min =>
          rw [Expr.tokens_query_enclosed _ c t e (Nat.succ_pos min)]
          exact hchar '(' _ rest rfl (by decide) (by decide)
      | zero =>
          have hcond := ihc he.1 1
            (' ' :: '?' :: (spell (t.tokens 0 ++ ":" :: e.tokens 0) ++ rest)) (endsWord_blank _)
            (fails_blank ' ' rfl (fails_text "\x7b" '\x7b' '?' _ rfl rfl (by decide)))
          rcases hcond with ⟨hblock, d, ds, hds, hd⟩
          rw [Expr.tokens_query_bare, spell_append, spell_cons, List.append_assoc, List.cons_append,
            List.append_assoc]
          refine ⟨hblock, d, ds ++ ' ' :: ("?".toList ++ spell (t.tokens 0 ++ ":" :: e.tokens 0)),
            ?_, hd⟩
          rw [hds]
          rfl
  | intCast e width ih => exact hchar 'i' _ rest rfl (by decide) (by decide)
  | boolCast e ih => exact hchar 'b' _ rest rfl (by decide) (by decide)

/-- A buffer annotation is read back. -/
theorem reads_bufferTokens (fuel : Nat) (b : Buffer Expr) (hdepth : b.depth < UInt64.size)
    (hinit : ∀ e ∈ b.init, e.Writable) (hfuel : (spell (bufferTokens (some b))).length < fuel)
    (rest : List Char) :
    Reads (bufferSpec fuel) (spell (bufferTokens (some b)) ++ rest) (.ok b) rest := by
  rcases b with ⟨depth, _ | e⟩
  · have htext : spell (bufferTokens (some ⟨depth, none⟩)) ++ rest
        = ' ' :: ("[".toList ++ ' ' :: (Nat.toDigits 10 depth ++ ' ' :: ("]".toList ++ rest))) := by
      rw [bufferTokens, spell_cons, spell_cons, Text.toString_toList]
      simp [spell]
    have hnone : Reads (bufferInit fuel) (' ' :: ("]".toList ++ rest)) none
        (' ' :: ("]".toList ++ rest)) :=
      reads_optional_none (fails_blank ' ' rfl (fails_bind
        (fails_text "," ',' ']' rest rfl rfl (by decide))))
    rw [htext]
    exact reads_bufferSpec fuel _ (reads_token "[" '[' _ rfl rfl)
      (reads_blank ' ' rfl (reads_bitwidth depth _ hdepth (head_cons ' ' _ rfl))) hnone
      (reads_token "]" ']' rest rfl rfl)
  · have htext : ∀ r, spell (bufferTokens (some ⟨depth, some e⟩)) ++ r
        = ' ' :: ("[".toList ++ ' ' :: (Nat.toDigits 10 depth ++ ' ' :: (",".toList ++
          (spell (e.tokens 0) ++ ' ' :: ("]".toList ++ r))))) := by
      intro r
      rw [bufferTokens, spell_cons, spell_cons, spell_cons, spell_append, Text.toString_toList]
      simp [spell]
    have hlen := congrArg List.length (htext [])
    simp only [List.append_nil, List.length_cons, List.length_append] at hlen
    have he := reads_expr_tokens e (hinit e rfl) fuel (' ' :: ("]".toList ++ rest)) (by omega)
      (exprEnd_bracket rest).blank
    -- The initial token ends at the bracket, as every expression does.
    have hcomma : Reads (bufferInit fuel)
        (' ' :: (",".toList ++ (spell (e.tokens 0) ++ ' ' :: ("]".toList ++ rest)))) (some (.ok e))
        (' ' :: ("]".toList ++ rest)) :=
      reads_optional (reads_seq (reads_token "," ',' _ rfl rfl) he)
    rw [htext]
    exact reads_bufferSpec fuel _ (reads_token "[" '[' _ rfl rfl)
      (reads_blank ' ' rfl (reads_bitwidth depth _ hdepth (head_cons ' ' _ rfl))) hcomma
      (reads_token "]" ']' rest rfl rfl)

/-- A function whose text can be read. -/
def WritableFunction (f : Func String Expr) : Prop :=
  f.WellFormed (fun name => IsReference name.toList) Expr.Writable ∧ ¬ f.IsSink Expr.IsVar

/-- A function is read back where a statement may stand. -/
theorem reads_functionTokens (fuel : Nat) (f : Func String Expr) (hf : WritableFunction f)
    (hfuel : (spell (functionTokens f)).length ≤ fuel) (rest : List Char) :
    Reads (dflowStmt fuel) (spell (functionTokens f) ++ rest) (.ok (.func f)) rest ∧
      rest.length < (skip (spell (functionTokens f) ++ rest)).length := by
  rcases f with ⟨e, b, t⟩
  have htext : ∀ r, spell (functionTokens ⟨e, b, t⟩) ++ r
      = spell (e.tokens 0) ++ ' ' :: ("->".toList ++ (spell (bufferTokens b) ++
        ' ' :: ((targetText t).toList ++ ' ' :: (";".toList ++ r)))) := by
    intro r
    rw [functionTokens, spell_append, spell_cons, spell_append, spell_cons, spell_cons]
    simp [spell]
  have hlen := congrArg List.length (htext [])
  simp only [List.append_nil, List.length_cons, List.length_append] at hlen
  have harrow : ∀ r, Fails (literal "\x7b") (' ' :: ("->".toList ++ r)) := fun r =>
    fails_blank ' ' rfl (fails_text "\x7b" '\x7b' '-' _ rfl rfl (by decide))
  -- Clusters and selections are tried first, and the expression must not be one.
  rcases noBlock_tokens e hf.1.expr 0 _ (endsWord_blank _) (harrow (spell (bufferTokens b) ++
    ' ' :: ((targetText t).toList ++ ' ' :: (";".toList ++ rest)))) with ⟨hblock, c, cs, hcs, hc⟩
  have he := reads_expr_tokens e hf.1.expr fuel (' ' :: ("->".toList ++ (spell (bufferTokens b) ++
    ' ' :: ((targetText t).toList ++ ' ' :: (";".toList ++ rest))))) (by omega) (exprEnd_arrow _)
  have htarget : Reads target (' ' :: ((targetText t).toList ++ ' ' :: (";".toList ++ rest))) t
      (' ' :: (";".toList ++ rest)) :=
    reads_blank ' ' rfl (reads_target t hf.1.output _ (endsWord_blank _))
  have hbuffer : Reads (optional (bufferSpec fuel))
      (spell (bufferTokens b) ++ ' ' :: ((targetText t).toList ++ ' ' :: (";".toList ++ rest)))
      (b.map .ok) (' ' :: ((targetText t).toList ++ ' ' :: (";".toList ++ rest))) := by
    cases b with
    | none =>
        exact reads_optional_none (fails_blank ' ' rfl (fails_bufferSpec fuel t hf.1.output _))
    | some b =>
        exact reads_optional (reads_bufferTokens fuel b (hf.1.depth b rfl) (hf.1.init b rfl)
          (by omega) _)
  -- A function that is written like a sink would be read as one.
  have hfunc : ∀ name, (⟨e, b, t⟩ : Func String Expr) ≠ ⟨.var name, none, none⟩ := by
    intro name heq
    cases heq
    exact hf.2 ⟨⟨name, rfl⟩, rfl, rfl⟩
  rw [htext, ← toStatement_of_ne _ hfunc]
  refine ⟨reads_dflowStmt_of_noBlock fuel hblock (reads_funcStmt fuel _ he
    (reads_token "->" '-' _ rfl rfl) hbuffer htarget (reads_token ";" ';' rest rfl rfl)), ?_⟩
  rw [hcs, List.cons_append, skip_space ' ' _ rfl, List.cons_append, skip_isSolid c _ hc]
  simp only [List.length_cons, List.length_append]
  omega

end Statements

section Programs

/-- The first token is the only one without a blank in front. -/
theorem toList_intercalate_blank (t : String) (ts : List String) :
    (String.intercalate " " (t :: ts)).toList = t.toList ++ spell ts := by
  have htext := toList_intercalate_cons " " id t ts
  rw [List.map_id] at htext
  exact htext

/-- The text of a program of functions. -/
theorem toList_programTokens (name : String) (functions : List (Func String Expr)) :
    (String.intercalate " " (programTokens name functions)).toList
      = "defproc".toList ++ ' ' :: (name.toList ++ ' ' :: ("(".toList ++ ' ' :: (")".toList ++
        ' ' :: ("\x7b".toList ++ ' ' :: ("dataflow".toList ++ ' ' :: ("\x7b".toList ++
          (functions.flatMap (fun f => spell (functionTokens f)) ++ ' ' :: ("\x7d".toList ++
            ' ' :: ("\x7d".toList ++ []))))))))) := by
  rw [programTokens, toList_intercalate_blank]
  simp only [spell_cons, spell_append]
  unfold spell
  rw [List.flatMap_assoc]
  rfl

/-- A process of functions is read back. -/
theorem reads_programTokens (name : String) (functions : List (Func String Expr))
    (hname : IsIdent name.toList) (hfunctions : ∀ f ∈ functions, WritableFunction f) (fuel : Nat)
    (hfuel : (String.intercalate " " (programTokens name functions)).toList.length ≤ fuel) :
    Reads (process fuel) (String.intercalate " " (programTokens name functions)).toList
      (.ok ⟨name, [], [], functions.map .func⟩) [] := by
  have hlen : ∀ f ∈ functions, (spell (functionTokens f)).length ≤ fuel := by
    intro f hf
    have hle := length_le_flatMap (fun f => spell (functionTokens f)) f functions hf
    rw [toList_programTokens] at hfuel
    simp only [List.length_cons, List.length_append] at hfuel
    omega
  have hidentifier : ∀ r, Reads identifier (' ' :: (name.toList ++ ' ' :: r)) name (' ' :: r) := by
    intro r
    have hread := reads_identifier name.toList (' ' :: r) hname (head_cons ' ' r rfl)
    rw [String.ofList_toList] at hread
    exact reads_blank ' ' rfl hread
  have hports : ∀ r, Reads portList (' ' :: (")".toList ++ r)) (.ok []) (')' :: r) := fun r =>
    reads_blank ' ' rfl (reads_portList [] (fun _ he => absurd he List.not_mem_nil) r)
  -- The keyword of the block is no declaration, so there are no items.
  have hitems : ∀ r, Rounds bodyItem (' ' :: ("dataflow".toList ++ ' ' :: ("\x7b".toList ++ r))) []
      (' ' :: ("dataflow".toList ++ ' ' :: ("\x7b".toList ++ r))) := fun r =>
    Rounds.done _ (fails_blank ' ' rfl (fails_bodyItem_dataflow r))
  -- Each function is read whatever follows it, with fuel for the whole text.
  have hrounds := rounds_flatMap (fun f => spell (functionTokens f))
    (fun f => (.ok (.func f) : Checked Statement)) functions
    (fun f hf r => reads_functionTokens fuel f (hfunctions f hf) (hlen f hf) r)
    (Rounds.done (' ' :: ("\x7d".toList ++ ' ' :: ("\x7d".toList ++ [])))
      (fails_blank ' ' rfl (fails_dflowStmt_close fuel _)))
  have hmap : functions.map (fun f => (.ok (.func f) : Checked Statement)) ++ []
      = (functions.map Element.func).map .ok := by
    rw [List.append_nil, List.map_map]
    rfl
  rw [hmap] at hrounds
  have hdataflow := reads_dataflow fuel _ (reads_token "dataflow" 'd' _ rfl rfl)
    (reads_token "\x7b" '\x7b' _ rfl rfl) hrounds (reads_token "\x7d" '\x7d' _ rfl rfl)
  rw [toList_programTokens]
  exact reads_process fuel _ (reads_text "defproc" 'd' _ rfl rfl) (hidentifier _)
    (reads_token "(" '(' _ rfl rfl) (hports _) (reads_text ")" ')' _ rfl rfl)
    (reads_token "\x7b" '\x7b' _ rfl rfl) (hitems _) hdataflow
    (reads_token "\x7d" '\x7d' _ rfl rfl)

/-- The text of a program is read back as the process of its functions: each
    function has the expression that it was written with. -/
theorem parse_programTokens (name : String) (functions : List (Func String Expr))
    (hname : IsIdent name.toList) (hfunctions : ∀ f ∈ functions, WritableFunction f) :
    parse (String.intercalate " " (programTokens name functions))
      = .ok [⟨name, [], [], [], functions.map .func⟩] := by
  refine parse_of_rounds _ [⟨name, [], [], functions.map .func⟩] fun fuel hfuel => ?_
  have hread := reads_programTokens name functions hname hfunctions fuel hfuel
  refine rounds_cons hread ?_ (Rounds.done [] (fails_process_end fuel))
  rw [toList_programTokens, skip_text "defproc" 'd' _ rfl rfl]
  exact Nat.succ_pos _

/-- Operators of every row, a channel that is called like a cast, one with an
    index before its end and one that is called like a block. -/
def mixedFunctions : List (Func String Expr) :=
  let sum : Expr :=
    .binary .minus
      (.binary .add (.binary .mul (.var "int") (.unary .neg (.unary .compl (.const 1))))
        (.var "a[007].b"))
      (.binary .minus (.boolCast (.var "bool")) (.var "y"))
  let equal : Expr := .binary .eq (.binary .gt (.binary .asr sum (.const 2)) (.var "z")) (.var "y")
  let cond : Expr :=
    .binary .or
      (.binary .xor (.binary .and equal (.unary .not (.binary .or (.var "y") (.var "z"))))
        (.var "z"))
      (.const 18446744073709551615)
  [⟨.query cond (.query (.var "y") (.const 1) (.const 2))
      (.intCast (.query (.var "z") (.const 3) (.const 4)) (some 8)),
    some ⟨2, some (.binary .add (.query (.var "y") (.const 0) (.const 1)) (.const 1))⟩, some "int"⟩,
   ⟨.var "dataflow_cluster", none, some "a[007].b"⟩]

/-- The texts of these functions can be read. -/
theorem writable_mixedFunctions : ∀ f ∈ mixedFunctions, WritableFunction f := by
  have hident : ∀ w : List Char, w.head?.any isHead = true → w.all isTail = true → IsIdent w := by
    intro w hhead htail
    cases w with
    | nil => cases hhead
    | cons c cs =>
        rw [List.all_cons, Bool.and_eq_true] at htail
        exact ⟨c, cs, rfl, hhead, List.all_eq_true.mp htail.2⟩
  have hword : ∀ w : List Char, w.head?.any isHead = true → w.all isTail = true →
      IsReference w := fun w hhead htail => .single w (hident w hhead htail).segment
  have hindexed : IsReference "a[007].b".toList := by
    have htext : "a[007].b".toList = "a[007]".toList ++ '.' :: "b".toList := by decide
    rw [htext]
    refine .dot _ _ ⟨"a".toList, "[007]".toList, by decide, hident _ (by decide) (by decide), ?_⟩
      (hword _ (by decide) (by decide))
    exact Or.inr ⟨"007".toList, by decide, List.all_eq_true.mp (by decide), by decide⟩
  have hint : IsReference "int".toList := hword _ (by decide) (by decide)
  have hbool : IsReference "bool".toList := hword _ (by decide) (by decide)
  have hy : IsReference "y".toList := hword _ (by decide) (by decide)
  have hz : IsReference "z".toList := hword _ (by decide) (by decide)
  have hblock : IsReference "dataflow_cluster".toList := hword _ (by decide) (by decide)
  have hsmall : ∀ n, n < 9 → n < UInt64.size := fun n hn => Nat.lt_trans hn (by decide)
  unfold mixedFunctions
  rw [List.forall_mem_cons, List.forall_mem_singleton]
  refine ⟨⟨⟨?_, ?_, ?_, ?_⟩, ?_⟩, ⟨⟨hblock, ?_, ?_, ?_⟩, ?_⟩⟩
  · have hmax : 18446744073709551615 < UInt64.size := by decide
    simp only [Expr.Writable, hint, hindexed, hbool, hy, hz, hmax, and_true, true_and,
      Option.mem_some_iff, forall_eq']
    exact ⟨⟨hsmall 1 (by decide), hsmall 2 (by decide)⟩,
      ⟨hsmall 1 (by decide), hsmall 2 (by decide)⟩,
      ⟨hsmall 3 (by decide), hsmall 4 (by decide)⟩, hsmall 8 (by decide)⟩
  · rintro b ⟨⟩
    exact hsmall 2 (by decide)
  · rintro b ⟨⟩ e ⟨⟩
    exact ⟨⟨hy, hsmall 0 (by decide), hsmall 1 (by decide)⟩, hsmall 1 (by decide)⟩
  · rintro name ⟨⟩
    exact hint
  · rintro ⟨⟨name, hname⟩, _⟩
    cases hname
  · rintro b ⟨⟩
  · rintro b ⟨⟩
  · rintro name ⟨⟩
    exact hindexed
  · rintro ⟨_, _, houtput⟩
    cases houtput

/-- The text of these functions, with the parentheses that they need. -/
def mixedText : String :=
  "defproc p ( ) \x7b dataflow \x7b int * - ~ 1 + a[007].b - ( bool ( bool ) - y ) >>> 2 > z = y " ++
    "& ! ( y | z ) ^ z | 18446744073709551615 ? y ? 1 : 2 : int ( z ? 3 : 4 , 8 ) " ++
    "-> [ 2 , ( y ? 0 : 1 ) + 1 ] int ; dataflow_cluster -> a[007].b ; \x7d \x7d"

theorem mixed_functions_are_read_back :
    parse mixedText = .ok [⟨"p", [], [], [], mixedFunctions.map .func⟩] := by
  have htext : String.intercalate " " (programTokens "p" mixedFunctions) = mixedText := by
    decide +kernel
  have hname : IsIdent "p".toList := ⟨'p', [], rfl, rfl, List.forall_mem_nil _⟩
  rw [← htext]
  exact parse_programTokens "p" mixedFunctions hname writable_mixedFunctions

end Programs

end Source

end DataflowCircuit
