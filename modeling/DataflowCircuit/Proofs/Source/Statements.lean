import DataflowCircuit.Proofs.Basic.Traversal
import DataflowCircuit.Proofs.Source.Expressions

/-!
# Printed Statements Are Read Back

The statement that the printer writes for an element is the element with its
names in place of its identities, `Element.map`. It is read back as that
statement if the element has the shape of one that was read: a split has two
outputs or more, a selection has inputs, and a function is no sink, since the
text of a channel that goes nowhere is the text of a sink.

The alternatives of a statement are tried in order, so a function is only read
once a cluster is refused. A channel can be called `dataflow_cluster`, and what
refuses a cluster then is that no brace follows the first word of an
expression.

## Main definitions

* `Element.Readable`: Elements whose text can be read.
* `Element.written`: The statement that is written for an element.
* `NoBlock`: Neither a cluster nor a selection starts here.

## Theorems

* `reads_funcStmt`, `reads_dataflow`: Functions and dataflow blocks are read
  from their parts.
* `reads_funcStmt_written`, `reads_selectStmt`, `reads_cluster`: Functions,
  selections and clusters are read back.
* `reads_dflowStmt`: An element is read back.
* `reads_dataflow_written`: A dataflow block is read back.
-/

namespace DataflowCircuit

/-- The name of an identity can be read. -/
def Scope.Named (s : Scope) (id : ChannelId) : Prop :=
  Source.IsName (s.nameOf id).toList

/-- An expression that is just a channel. -/
def Expr.IsVar (e : Expr) : Prop :=
  ∃ id, e = .var id

/-- The text of an element can be read. -/
def Element.Readable (s : Scope) (el : Element ChannelId Expr) : Prop :=
  el.WellFormed s.Named (Expr.Readable s) Expr.IsVar

/-- The function that the printer writes. -/
def Func.written (s : Scope) (f : Func ChannelId Expr) : Func String Source.Expr :=
  f.map s.nameOf (Expr.written s)

/-- The statement that the printer writes. -/
def Element.written (s : Scope) (el : Element ChannelId Expr) : Source.Statement :=
  el.map s.nameOf (Expr.written s)

/-- The text of a function. -/
def Func.chars (s : Scope) (f : Func ChannelId Expr) : List Char :=
  (f.print s).toList

/-- The text of a target. -/
def targetChars (s : Scope) (t : Option ChannelId) : List Char :=
  (printTarget s t).toList

/-- The text of an optional buffer annotation. -/
def bufferChars (s : Scope) : Option (Buffer Expr) → List Char
  | none => []
  | some ⟨depth, none⟩ => '[' :: (Nat.toDigits 10 depth ++ "] ".toList)
  | some ⟨depth, some e⟩ =>
      '[' :: (Nat.toDigits 10 depth ++ ',' :: ' ' :: (e.chars s ++ "] ".toList))

/-- A function is its expression, an arrow, a buffer if there is one, and a
    target. -/
theorem Func.chars_eq (s : Scope) (f : Func ChannelId Expr) :
    f.chars s = f.expr.chars s ++ " -> ".toList ++
      (bufferChars s f.buffer ++ targetChars s f.output) := by
  rcases f with ⟨e, b, t⟩
  rcases b with _ | ⟨depth, _ | init⟩ <;>
    simp [Func.chars, Func.print, Buffer.print, bufferChars, targetChars, Expr.chars]

namespace Element

variable (s : Scope)

/-- An element that is a function is printed as one. -/
theorem print_func (f : Func ChannelId Expr) : (func f).print s = f.print s := rfl

/-- A split is printed with its guard in braces and a list of targets. -/
theorem print_split (guard input : ChannelId) (outputs : List (Option ChannelId)) :
    (split guard input outputs).print s = "\x7b" ++ s.nameOf guard ++ "\x7d " ++ s.nameOf input ++
      " -> " ++ String.intercalate ", " (outputs.map (printTarget s)) := rfl

/-- A merge has one target and a list of channels in front. -/
theorem print_merge (guard : ChannelId) (inputs : List ChannelId) (output : ChannelId) :
    (merge guard inputs output).print s = "\x7b" ++ s.nameOf guard ++ "\x7d " ++
      printChannels s inputs ++ " -> " ++ s.nameOf output := rfl

/-- A mixer is printed with a star for its guard. -/
theorem print_mixer (inputs : List ChannelId) (output : ChannelId) :
    (mixer inputs output).print s = "\x7b*\x7d " ++ printChannels s inputs ++ " -> " ++
      s.nameOf output := rfl

/-- An arbiter is printed with a bar for its guard, and with two targets. -/
theorem print_arbiter (inputs : List ChannelId) (output ctrl : ChannelId) :
    (arbiter inputs output ctrl).print s = "\x7b|\x7d " ++ printChannels s inputs ++ " -> " ++
      s.nameOf output ++ ", " ++ s.nameOf ctrl := rfl

/-- A sink is printed like a function that goes nowhere. -/
theorem print_sink (input : ChannelId) : (sink input).print s = s.nameOf input ++ " -> *" := rfl

/-- A cluster is printed with its functions between braces. -/
theorem print_cluster (funcs : List (Func ChannelId Expr)) :
    (cluster funcs).print s = "dataflow_cluster \x7b " ++
      String.intercalate " " (funcs.map fun f => f.print s ++ ";") ++ " \x7d" := rfl

end Element

namespace Source

open DataflowCircuit.Source.Parser

variable (s : Scope)

section Targets

/-- A mark that starts no identifier is refused where a name stands. -/
theorem fails_text_name (m : String) (d : Char) (w rest : List Char) (hm : m.toList.head? = some d)
    (hd : isHead d = false) (hw : IsReference w) : Fails (literal m) (w ++ rest) := by
  rcases isReference_cons w hw with ⟨c, cs, rfl, hc⟩
  refine fails_text m d c (cs ++ rest) hm (isSolid_of_isTail c (isTail_of_isHead c hc)) ?_
  intro heq
  rw [heq, hc] at hd
  cases hd

/-- The text of a target, by the name of its channel. -/
def targetText (t : Option String) : String :=
  t.getD "*"

/-- The text of a target depends on the name of its channel only. -/
theorem targetChars_eq (t : Option ChannelId) :
    targetChars s t = (targetText (t.map s.nameOf)).toList := by
  cases t <;> rfl

/-- The name of a target can be read as a reference. -/
theorem reference_of_named {t : Option ChannelId} (ht : ∀ id ∈ t, s.Named id) :
    ∀ name ∈ t.map s.nameOf, IsReference name.toList := by
  intro name hname
  rcases Option.map_eq_some_iff.mp hname with ⟨id, hid, rfl⟩
  exact IsName.reference (ht id hid)

/-- A target is read back. -/
theorem reads_target (t : Option String) (ht : ∀ name ∈ t, IsReference name.toList)
    (rest : List Char) (hrest : EndsWord rest) :
    Reads target ((targetText t).toList ++ rest) t rest := by
  cases t with
  | none =>
      have hstar : Reads (mark .unconnected "*" (none : Option String)) ('*' :: rest) none rest :=
        reads_rule _ (reads_return (reads_text "*" '*' rest rfl rfl))
      exact reads_rule _ (reads_orElse_left hstar)
  | some name =>
      have href := ht name rfl
      -- The star is tried first, and no name starts with it.
      refine reads_rule _ (reads_orElse_right
        (fails_bind (fails_text_name "*" '*' _ rest rfl rfl href)) (reads_orElse_left ?_))
      have hread := reads_map some (reads_chanRef _ rest href hrest)
      rw [String.ofList_toList] at hread
      exact hread

/-- Targets are read back. -/
theorem reads_targetList (ts : List (Option ChannelId)) (hne : ts ≠ [])
    (hts : ∀ t ∈ ts, ∀ id ∈ t, s.Named id) (rest : List Char) (hrest : EndsWord rest)
    (hstop : Fails (literal ",") rest) :
    Reads targetList ((String.intercalate ", " (ts.map (printTarget s))).toList ++ rest)
      (ts.map (Option.map s.nameOf)) rest := by
  cases ts with
  | nil => exact absurd rfl hne
  | cons t ts =>
      rw [toList_intercalate_cons, List.append_assoc]
      refine reads_rule _ (reads_list "," ',' rfl rfl (targetChars s) (Option.map s.nameOf)
        t ts rest ?_ hstop)
      intro y hy r hr
      rw [targetChars_eq]
      refine reads_target _ (reference_of_named s (hts y hy)) r ?_
      -- What follows a target is the next comma, or what follows the list.
      rcases hr with rfl | ⟨r', rfl⟩
      · exact hrest
      · exact head_cons ',' _ (by decide)

end Targets

section Functions

/-- No buffer annotation starts like a target. -/
theorem fails_bufferSpec (fuel : Nat) (t : Option String)
    (ht : ∀ name ∈ t, IsReference name.toList) (rest : List Char) :
    Fails (bufferSpec fuel) ((targetText t).toList ++ rest) := by
  refine fails_rule _ (fails_bind ?_)
  cases t with
  | none => exact fails_text "[" '[' '*' rest rfl rfl (by decide)
  | some name => exact fails_text_name "[" '[' _ rest rfl rfl (ht name rfl)

/-- The initial token of a buffer is read behind a comma, or there is none. -/
def bufferInit (fuel : Nat) : Reader (Option (Checked Expr)) :=
  optional (literal "," >>= fun _ => gap >>= fun _ => expr fuel)

/-- A buffer annotation is read from its parts. -/
theorem reads_bufferSpec {cs cs₁ cs₂ cs₃ rest : List Char} (fuel : Nat) (b : Buffer Expr)
    (hopen : Reads (literal "[") cs () cs₁) (hdepth : Reads bitwidth cs₁ (.ok b.depth) cs₂)
    (hinit : Reads (bufferInit fuel) cs₂ (b.init.map .ok) cs₃)
    (hclose : Reads (literal "]") cs₃ () rest) :
    Reads (bufferSpec fuel) cs (.ok b) rest := by
  rcases b with ⟨depth, init⟩
  unfold bufferSpec
  refine reads_rule _ (reads_seq hopen (reads_seq hdepth (reads_seq hinit ?_)))
  cases init with
  | none => exact reads_map _ hclose
  | some e => exact reads_map _ hclose

/-- A printed buffer annotation is read back. -/
theorem reads_bufferSpec_written (fuel : Nat) (b : Buffer DataflowCircuit.Expr)
    (hdepth : b.depth < UInt64.size) (hinit : ∀ e ∈ b.init, e.Readable s)
    (hfuel : (bufferChars s (some b)).length < fuel)
    (rest : List Char) :
    Reads (bufferSpec fuel) (bufferChars s (some b) ++ rest) (.ok (b.map (Expr.written s)))
      rest := by
  have hopen : ∀ cs, Reads (literal "[") ('[' :: cs) () cs := fun cs =>
    reads_text "[" '[' cs rfl rfl
  have hclose : Reads (literal "]") (']' :: ' ' :: rest) () rest :=
    reads_leave_blank ' ' rfl (reads_text "]" ']' (' ' :: rest) rfl rfl)
  rcases b with ⟨depth, _ | e⟩
  · have htext : bufferChars s (some ⟨depth, none⟩) ++ rest
        = '[' :: (Nat.toDigits 10 depth ++ ']' :: ' ' :: rest) := by
      simp [bufferChars]
    -- Without a comma there is no initial token.
    have hnone : Reads (bufferInit fuel) (']' :: ' ' :: rest) none (']' :: ' ' :: rest) :=
      reads_optional_none (fails_bind (fails_text "," ',' ']' _ rfl rfl (by decide)))
    rw [htext]
    exact reads_bufferSpec fuel _ (hopen _) (reads_bitwidth depth _ hdepth (head_cons ']' _ rfl))
      hnone hclose
  · have htext : bufferChars s (some ⟨depth, some e⟩) ++ rest
        = '[' :: (Nat.toDigits 10 depth ++ ',' :: ' ' :: (e.chars s ++ ']' :: ' ' :: rest)) := by
      simp [bufferChars]
    -- The fuel that covers the annotation covers the expression in it.
    have hlt : (e.chars s).length < fuel := by
      simp only [bufferChars, List.length_cons, List.length_append] at hfuel
      omega
    have he := reads_expr s e (hinit e rfl) fuel (']' :: ' ' :: rest) hlt (exprEnd_bracket _)
    have hcomma : Reads (bufferInit fuel)
        (',' :: ' ' :: (e.chars s ++ ']' :: ' ' :: rest)) (some (.ok (e.written s)))
        (']' :: ' ' :: rest) :=
      reads_optional (reads_seq (reads_text "," ',' _ rfl rfl) (reads_blank ' ' rfl he))
    rw [htext]
    exact reads_bufferSpec fuel _ (hopen _) (reads_bitwidth depth _ hdepth (head_cons ',' _ rfl))
      hcomma hclose

/-- A function is read from its parts, as a sink if it is one. -/
theorem reads_funcStmt {cs cs₁ cs₂ cs₃ cs₄ rest : List Char} (fuel : Nat) (f : Func String Expr)
    (he : Reads (expr fuel) cs (.ok f.expr) cs₁) (harrow : Reads (literal "->") cs₁ () cs₂)
    (hbuffer : Reads (optional (bufferSpec fuel)) cs₂ (f.buffer.map .ok) cs₃)
    (htarget : Reads target cs₃ f.output cs₄) (hclose : Reads (literal ";") cs₄ () rest) :
    Reads (funcStmt fuel) cs (.ok (toStatement f)) rest := by
  rcases f with ⟨e, buffer, t⟩
  unfold funcStmt
  refine reads_rule _ (reads_seq he (reads_seq harrow (reads_seq hbuffer (reads_seq htarget ?_))))
  cases buffer with
  | none => exact reads_map _ hclose
  | some b => exact reads_map _ hclose

/-- A printed function is read back. -/
theorem reads_funcStmt_written (fuel : Nat) (f : Func ChannelId DataflowCircuit.Expr)
    (hf : f.WellFormed s.Named (Expr.Readable s)) (hfuel : (f.chars s).length < fuel)
    (rest : List Char) :
    Reads (funcStmt fuel) (f.chars s ++ ';' :: rest) (.ok (toStatement (f.written s))) rest := by
  rcases f with ⟨e, b, t⟩
  rw [Func.chars_eq] at hfuel ⊢
  simp only [List.length_append] at hfuel
  have htext : e.chars s ++ " -> ".toList ++ (bufferChars s b ++ targetChars s t) ++ ';' :: rest
      = e.chars s ++ ' ' :: ("->".toList ++ ' ' ::
        (bufferChars s b ++ (targetChars s t ++ ';' :: rest))) := by
    simp
  -- The expression ends at the arrow, which could have been read as a minus sign.
  have he := reads_expr s e hf.expr fuel
    (' ' :: '-' :: '>' :: ' ' :: (bufferChars s b ++ (targetChars s t ++ ';' :: rest)))
    (by omega) (exprEnd_arrow _)
  have hnames := reference_of_named s hf.output
  have htarget : Reads target (targetChars s t ++ ';' :: rest) (t.map s.nameOf) (';' :: rest) := by
    rw [targetChars_eq]
    exact reads_target _ hnames _ (endsWord_semicolon rest)
  have hbuffer : Reads (optional (bufferSpec fuel))
      (bufferChars s b ++ (targetChars s t ++ ';' :: rest))
      ((b.map (Buffer.map (Expr.written s))).map .ok) (targetChars s t ++ ';' :: rest) := by
    cases b with
    | none =>
        rw [targetChars_eq]
        -- The target comes next, and it is not taken for an annotation.
        exact reads_optional_none (fails_bufferSpec fuel _ hnames _)
    | some b =>
        exact reads_optional (reads_bufferSpec_written s fuel b (hf.depth b rfl) (hf.init b rfl)
          (by omega) _)
  rw [htext]
  exact reads_funcStmt fuel _ he (reads_spaced "->" '-' _ rfl rfl) hbuffer htarget
    (reads_text ";" ';' rest rfl rfl)

/-- A function is read as a function unless it is just a channel that goes
    nowhere. -/
theorem toStatement_of_ne (f : Func String Expr) (hf : ∀ name, f ≠ ⟨.var name, none, none⟩) :
    toStatement f = .func f := by
  unfold toStatement
  split
  · rename_i name
    exact absurd rfl (hf name)
  · rfl

/-- A function that is not written like a sink is read as a function. -/
theorem toStatement_func (f : Func ChannelId DataflowCircuit.Expr)
    (hf : ¬ f.IsSink Expr.IsVar) : toStatement (f.written s) = .func (f.written s) := by
  refine toStatement_of_ne _ fun name heq => hf ?_
  rcases f with ⟨e, b, t⟩
  injection heq with hexpr hbuffer houtput
  refine ⟨?_, Option.map_eq_none_iff.mp hbuffer, Option.map_eq_none_iff.mp houtput⟩
  -- Only a channel is written as a channel.
  cases e with
  | var id => exact ⟨id, rfl⟩
  | _ => cases hexpr

end Functions

section Blocks

/-- Neither a cluster nor a selection starts here. -/
structure NoBlock (cs : List Char) : Prop where
  cluster : ∀ {α : Type} (k : Unit → Reader α),
    Fails (literal "dataflow_cluster" >>= fun _ => gap >>= fun _ => literal "\x7b" >>= k) cs
  brace : Fails (literal "\x7b") cs

/-- A first character decides that no block starts here. -/
theorem noBlock_of_char (c : Char) (rest : List Char) (hc : isSolid c = true) (hd : 'd' ≠ c)
    (hbrace : '\x7b' ≠ c) : NoBlock (c :: rest) where
  cluster := fun _ => fails_bind (fails_text "dataflow_cluster" 'd' c rest rfl hc hd)
  brace := fails_text "\x7b" '\x7b' c rest rfl hc hbrace

/-- A name starts a block only if it is the keyword and a brace follows. -/
theorem noBlock_of_name (w rest : List Char) (hw : IsReference w) (hword : EndsWord rest)
    (hrest : Fails (literal "\x7b") rest) : NoBlock (w ++ rest) where
  cluster := fun k => fails_keyword "dataflow_cluster" "\x7b" '\x7b' w rest _ k (fun _ h => h) rfl
    rfl rfl hw hword hrest
  brace := fails_text_name "\x7b" '\x7b' w rest rfl rfl hw

/-- No operator is an opening brace. -/
theorem fails_brace_symbol (op : BinOp) (rest : List Char) :
    Fails (literal "\x7b") (' ' :: (op.symbol.toList ++ ' ' :: rest)) := by
  refine fails_blank ' ' rfl ?_
  unfold Fails
  rw [skip_symbol]
  cases op <;> rfl

/-- No expression is taken for a block: its first word is followed by no
    brace. -/
theorem noBlock_expr (e : DataflowCircuit.Expr) (he : e.Readable s) (rest : List Char)
    (hword : EndsWord rest) (hrest : Fails (literal "\x7b") rest) :
    NoBlock (e.chars s ++ rest) := by
  -- An operand stands in parentheses or is itself an expression that starts no block.
  have hoperand : ∀ (l : DataflowCircuit.Expr) (t : List Char), NoBlock (l.chars s ++ t) →
      NoBlock (l.operandChars s ++ t) := by
    intro l t hl
    cases hcompound : l.isCompound with
    | true =>
        rw [Expr.operandChars_compound s l hcompound]
        exact noBlock_of_char '(' _ rfl (by decide) (by decide)
    | false =>
        rw [Expr.operandChars_simple s l hcompound]
        exact hl
  -- What follows the first operand changes along the way, so `rest` is general.
  induction e generalizing rest with
  | const n =>
      rcases Text.toDigits_head n with ⟨c, cs, hcs, hc⟩
      rw [Expr.chars_const, hcs]
      refine noBlock_of_char c _ (isSolid_of_isTail c (isTail_of_isDigit c hc)) ?_ ?_
      · intro heq
        rw [← heq] at hc
        cases hc
      · exact (ne_of_isTail c '\x7b' (isTail_of_isDigit c hc) rfl).symm
  | var id => exact noBlock_of_name _ rest (IsName.reference he) hword hrest
  | binary op l r ihl ihr =>
      rw [Expr.chars_binary, List.append_assoc]
      refine hoperand l _ (ihl he.1 _ (endsWord_blank _) ?_)
      rw [List.cons_append, List.append_assoc]
      exact fails_brace_symbol op _
  | unary op e ih =>
      rw [Expr.chars_unary]
      cases op
      · exact noBlock_of_char '!' _ rfl (by decide) (by decide)
      · exact noBlock_of_char '-' _ rfl (by decide) (by decide)
      · exact noBlock_of_char '~' _ rfl (by decide) (by decide)
  | query c t e ihc iht ihe =>
      rw [Expr.chars_query, List.append_assoc, List.append_assoc]
      refine hoperand c _ (ihc he.1 _ (endsWord_blank _) ?_)
      exact fails_blank ' ' rfl (fails_text "\x7b" '\x7b' '?' _ rfl rfl (by decide))
  | cast e width ih =>
      rw [Expr.chars_cast]
      exact noBlock_of_char 'i' _ rfl (by decide) (by decide)

end Blocks

section Selections

/-- The text of a selection. -/
def selectText (guard : String) (inputs outputs : List (Option ChannelId)) : String :=
  "\x7b" ++ guard ++ "\x7d " ++ String.intercalate ", " (inputs.map (printTarget s)) ++ " -> " ++
    String.intercalate ", " (outputs.map (printTarget s))

/-- A selection is read as what its guard, inputs and outputs stand for. -/
theorem reads_selectStmt (text : String) (guard : Guard) (inputs outputs : List (Option ChannelId))
    (st : Statement) (rest : List Char)
    (hguard : ∀ r, Reads guardSpec (text.toList ++ '\x7d' :: r) guard ('\x7d' :: r))
    (hinputs : ∀ t ∈ inputs, ∀ id ∈ t, s.Named id) (hin : inputs ≠ [])
    (houtputs : ∀ t ∈ outputs, ∀ id ∈ t, s.Named id) (hout : outputs ≠ [])
    (hst : ∀ left, selection left guard (inputs.map (Option.map s.nameOf))
      (outputs.map (Option.map s.nameOf)) = .ok st) :
    Reads selectStmt ((selectText s text inputs outputs).toList ++ ';' :: rest) (.ok st) rest := by
  -- The text is laid out once, so that each part is read from what the last one left.
  have hsplit : (selectText s text inputs outputs).toList ++ ';' :: rest
      = '\x7b' :: (text.toList ++ '\x7d' :: ' ' ::
        ((String.intercalate ", " (inputs.map (printTarget s))).toList ++ ' ' :: '-' :: '>' ::
          ' ' :: ((String.intercalate ", " (outputs.map (printTarget s))).toList ++
            ';' :: rest))) := by
    simp [selectText]
  have hins := reads_targetList s inputs hin hinputs (' ' :: '-' :: '>' :: ' ' ::
      ((String.intercalate ", " (outputs.map (printTarget s))).toList ++ ';' :: rest))
    (endsWord_blank _)
    (fails_blank ' ' rfl (fails_text "," ',' '-' _ rfl rfl (by decide)))
  have houts := reads_targetList s outputs hout houtputs (';' :: rest) (endsWord_semicolon rest)
    (fails_text "," ',' ';' rest rfl rfl (by decide))
  have hclose : Reads (literal ";") (';' :: rest) () rest := reads_text ";" ';' rest rfl rfl
  rw [hsplit]
  unfold selectStmt
  refine reads_rule _ (reads_rest (reads_seq (reads_text "\x7b" '\x7b' _ rfl rfl) ?_))
  refine reads_seq (hguard _) (reads_seq (reads_text "\x7d" '\x7d' _ rfl rfl) ?_)
  refine reads_blank ' ' rfl (reads_seq hins ?_)
  refine reads_blank ' ' rfl (reads_seq (reads_text "->" '-' _ rfl rfl) ?_)
  refine reads_blank ' ' rfl (reads_seq houts ?_)
  rw [← hst]
  exact reads_return hclose

/-- A channel in braces is read as a guard. -/
theorem reads_guard_channel (id : ChannelId) (hid : s.Named id) (rest : List Char) :
    Reads guardSpec ((s.nameOf id).toList ++ '\x7d' :: rest) (.channel (s.nameOf id))
      ('\x7d' :: rest) := by
  have hname := reads_chanRef _ ('\x7d' :: rest) (IsName.reference hid)
    (head_cons '\x7d' rest (by decide))
  rw [String.ofList_toList] at hname
  refine reads_rule _ (reads_orElse_right
    (fails_bind (fails_text_name "*" '*' _ _ rfl rfl (IsName.reference hid))) ?_)
  refine reads_orElse_right
    (fails_bind (fails_text_name "|" '|' _ _ rfl rfl (IsName.reference hid))) ?_
  exact reads_orElse_left (reads_map Guard.channel hname)

/-- A star in braces is that of a mixer. -/
theorem reads_guard_mixer (rest : List Char) :
    Reads guardSpec ('*' :: '\x7d' :: rest) .mixer ('\x7d' :: rest) :=
  reads_rule _ (reads_orElse_left (reads_rule _ (reads_return (reads_text "*" '*' _ rfl rfl))))

/-- And a bar that of an arbiter. -/
theorem reads_guard_arbiter (rest : List Char) :
    Reads guardSpec ('|' :: '\x7d' :: rest) .arbiter ('\x7d' :: rest) :=
  reads_rule _ (reads_orElse_right
    (fails_bind (fails_text "*" '*' '|' _ rfl rfl (by decide)))
    (reads_orElse_left (reads_rule _ (reads_return (reads_text "|" '|' _ rfl rfl)))))

/-- Channels that are all connected. -/
theorem connected_some (left : Nat) (ids : List ChannelId) :
    connected left ((ids.map some).map (Option.map s.nameOf)) = .ok (ids.map s.nameOf) := by
  unfold connected
  rw [List.map_map, traverseList_map]
  exact traverseList_eq_map _ s.nameOf ids fun id _ => rfl

/-- A selection with one input and two outputs or more is a split. -/
theorem selection_split (left : Nat) (guard input : String) (outputs : List (Option String))
    (hlen : 2 ≤ outputs.length) :
    selection left (.channel guard) [some input] outputs = .ok (.split guard input outputs) := by
  match outputs, hlen with
  | _ :: _ :: _, _ => rfl

/-- A selection with one output is a merge, however many inputs it has. -/
theorem selection_merge (left : Nat) (guard : String) (inputs : List ChannelId)
    (output : ChannelId) :
    selection left (.channel guard) ((inputs.map some).map (Option.map s.nameOf))
      [some (s.nameOf output)] = .ok (.merge guard (inputs.map s.nameOf) (s.nameOf output)) := by
  unfold selection
  rw [connected_some]
  -- A split comes first, and the second output that it asks for is not there.
  cases inputs with
  | nil => rfl
  | cons x xs =>
      cases xs with
      | nil => rfl
      | cons y ys => rfl

/-- Behind a star it is a mixer. -/
theorem selection_mixer (left : Nat) (inputs : List ChannelId) (output : ChannelId) :
    selection left .mixer ((inputs.map some).map (Option.map s.nameOf))
      [some (s.nameOf output)] = .ok (.mixer (inputs.map s.nameOf) (s.nameOf output)) := by
  unfold selection
  rw [connected_some]
  rfl

/-- And behind a bar an arbiter, if there are two outputs. -/
theorem selection_arbiter (left : Nat) (inputs : List ChannelId) (output ctrl : ChannelId) :
    selection left .arbiter ((inputs.map some).map (Option.map s.nameOf))
      [some (s.nameOf output), some (s.nameOf ctrl)]
        = .ok (.arbiter (inputs.map s.nameOf) (s.nameOf output) (s.nameOf ctrl)) := by
  unfold selection
  rw [connected_some]
  rfl

end Selections

section Clusters

/-- No expression starts with a closing brace. -/
theorem fails_expr_close (fuel : Nat) (rest : List Char) : Fails (expr fuel) ('\x7d' :: rest) := by
  cases fuel with
  | zero => exact fails_fail
  | succ fuel =>
      have hoperand := fails_operand (expr fuel) '\x7d' rest rfl rfl rfl
      exact fails_rule _ (fails_bind (fails_rule _ (fails_bind hoperand)))

/-- No function starts with the end of a block. -/
theorem fails_funcStmt_close (fuel : Nat) (rest : List Char) :
    Fails (funcStmt fuel) ('\x7d' :: rest) :=
  fails_rule _ (fails_bind (fails_expr_close fuel rest))

/-- The text of a function starts with no blank. -/
theorem skip_func (f : Func ChannelId DataflowCircuit.Expr)
    (hf : f.WellFormed s.Named (Expr.Readable s)) (rest : List Char) :
    skip (f.chars s ++ rest) = f.chars s ++ rest := by
  rcases chars_cons s f.expr hf.expr with ⟨c, cs, hcs, hc⟩
  rw [Func.chars_eq, hcs]
  exact skip_isSolid c _ hc

/-- The text of the functions of a cluster, each after a blank. -/
theorem toList_members (f : Func ChannelId DataflowCircuit.Expr)
    (fs : List (Func ChannelId DataflowCircuit.Expr)) (rest : List Char) :
    ' ' :: ((String.intercalate " " ((f :: fs).map fun f => f.print s ++ ";")).toList ++ rest)
      = (f :: fs).flatMap (fun f => ' ' :: (f.chars s ++ [';'])) ++ rest := by
  rw [toList_intercalate_cons]
  simp [Func.chars, List.flatMap_cons]

/-- The functions of a cluster are read back in rounds. -/
theorem rounds_members (fuel : Nat) (funcs : List (Func ChannelId DataflowCircuit.Expr))
    (hfuncs : ∀ f ∈ funcs, f.WellFormed s.Named (Expr.Readable s) ∧ ¬ f.IsSink Expr.IsVar)
    (hfuel : ∀ f ∈ funcs, (f.chars s).length < fuel) (rest : List Char) :
    Rounds (funcStmt fuel)
      (funcs.flatMap (fun f => ' ' :: (f.chars s ++ [';'])) ++ ' ' :: '\x7d' :: rest)
      (funcs.map fun f => .ok (.func (f.written s))) (' ' :: '\x7d' :: rest) := by
  have hstop := fails_blank ' ' rfl (fails_funcStmt_close fuel rest)
  rw [← List.append_nil (funcs.map _)]
  refine rounds_flatMap _ _ funcs ?_ (Rounds.done _ hstop)
  intro f hf r
  have hread := reads_funcStmt_written s fuel f (hfuncs f hf).1 (hfuel f hf) r
  have htext : ' ' :: (f.chars s ++ [';']) ++ r = ' ' :: (f.chars s ++ ';' :: r) := by
    simp
  rw [toStatement_func s f (hfuncs f hf).2] at hread
  rw [htext]
  -- Every round has to read something.
  refine ⟨reads_blank ' ' rfl hread, ?_⟩
  rw [skip_space ' ' _ rfl, skip_func s f (hfuncs f hf).1, List.length_append, List.length_cons]
  omega

/-- A function of a cluster is no longer than the cluster. -/
theorem length_member_le (f : Func ChannelId DataflowCircuit.Expr)
    (funcs : List (Func ChannelId DataflowCircuit.Expr)) (hf : f ∈ funcs) :
    (f.chars s).length < ((Element.cluster funcs).print s).toList.length := by
  cases funcs with
  | nil => cases hf
  | cons g gs =>
      have hlen := congrArg List.length (toList_members s g gs [])
      have hmem := length_le_flatMap (fun f => ' ' :: (f.chars s ++ [';'])) f (g :: gs) hf
      rw [Element.print_cluster]
      simp only [String.toList_append, List.length_append, List.length_cons, List.length_nil]
        at hlen hmem ⊢
      omega

/-- Functions are all that a cluster may hold. -/
theorem members_func (left : Nat) (fs : List (Func String Expr)) :
    members left (fs.map .func) = .ok fs := by
  unfold members
  rw [traverseList_map]
  have hmembers := traverseList_eq_map (fun f : Func String Expr => (.ok f : Checked _)) id fs
    fun _ _ => rfl
  rw [List.map_id] at hmembers
  exact hmembers

/-- What is read between the braces of a cluster. -/
theorem rounds_cluster (fuel : Nat) (funcs : List (Func ChannelId DataflowCircuit.Expr))
    (hfuncs : ∀ f ∈ funcs, f.WellFormed s.Named (Expr.Readable s) ∧ ¬ f.IsSink Expr.IsVar)
    (hfuel : ∀ f ∈ funcs, (f.chars s).length < fuel) (rest : List Char) :
    ∃ cs, Rounds (funcStmt fuel)
      (' ' :: ((String.intercalate " " (funcs.map fun f => f.print s ++ ";")).toList ++
        ' ' :: '\x7d' :: rest)) (funcs.map fun f => .ok (.func (f.written s))) cs ∧
      skip cs = '\x7d' :: rest := by
  cases funcs with
  | nil =>
      -- Two blanks stand between the braces of an empty cluster.
      refine ⟨' ' :: ' ' :: '\x7d' :: rest, Rounds.done _ ?_, ?_⟩
      · exact fails_blank ' ' rfl (fails_blank ' ' rfl (fails_funcStmt_close fuel rest))
      · rw [skip_space ' ' _ rfl, skip_space ' ' _ rfl, skip_isSolid '\x7d' rest rfl]
  | cons f fs =>
      refine ⟨' ' :: '\x7d' :: rest, ?_, ?_⟩
      · rw [toList_members]
        exact rounds_members s fuel (f :: fs) hfuncs hfuel rest
      · rw [skip_space ' ' _ rfl, skip_isSolid '\x7d' rest rfl]

/-- The cluster that is made of functions without flaws. -/
theorem cluster_of_members (left : Nat) (funcs : List (Func ChannelId DataflowCircuit.Expr)) :
    (do
      let statements ← joined (funcs.map fun f => .ok (.func (f.written s)))
      return .cluster (← members left statements) : Checked Statement)
        = .ok (.cluster (funcs.map (Func.written s))) := by
  have hmap : (funcs.map fun f => (.func (f.written s) : Statement))
      = (funcs.map (Func.written s)).map .func := by
    rw [List.map_map]
    rfl
  rw [joined_ok fun f : Func ChannelId DataflowCircuit.Expr => (.func (f.written s) : Statement),
    hmap]
  change (members left ((funcs.map (Func.written s)).map .func) >>= _) = _
  rw [members_func]
  rfl

/-- A cluster is read back. -/
theorem reads_cluster (fuel : Nat) (funcs : List (Func ChannelId DataflowCircuit.Expr))
    (hfuncs : ∀ f ∈ funcs, f.WellFormed s.Named (Expr.Readable s) ∧ ¬ f.IsSink Expr.IsVar)
    (hfuel : ∀ f ∈ funcs, (f.chars s).length < fuel) (rest : List Char) :
    Reads (cluster fuel) (((Element.cluster funcs).print s).toList ++ rest)
      (.ok (.cluster (funcs.map (Func.written s)))) rest := by
  have htext : ((Element.cluster funcs).print s).toList ++ rest
      = "dataflow_cluster".toList ++ ' ' :: '\x7b' :: ' ' ::
        ((String.intercalate " " (funcs.map fun f => f.print s ++ ";")).toList ++
          ' ' :: '\x7d' :: rest) := by
    have hopen : "dataflow_cluster \x7b ".toList
        = "dataflow_cluster".toList ++ [' ', '\x7b', ' '] := by decide
    have hclose : " \x7d".toList = [' ', '\x7d'] := by decide
    simp only [Element.print_cluster, String.toList_append, hopen, hclose, List.append_assoc,
      List.cons_append, List.nil_append]
  rcases rounds_cluster s fuel funcs hfuncs hfuel rest with ⟨cs, hrounds, hcs⟩
  rw [htext]
  unfold cluster
  refine reads_rule _ (reads_rest (reads_seq
    (reads_text "dataflow_cluster" 'd' _ rfl rfl) (reads_blank ' ' rfl ?_)))
  refine reads_seq (reads_text "\x7b" '\x7b' _ rfl rfl) (reads_seq (reads_repeated hrounds) ?_)
  rw [cluster_of_members]
  exact reads_return (reads_literal "\x7d" hcs)

/-- A cluster starts with its keyword. -/
theorem fails_cluster (fuel : Nat) (c : Char) (rest : List Char) (hc : isSolid c = true)
    (hd : 'd' ≠ c) : Fails (cluster fuel) (c :: rest) := by
  unfold cluster
  exact fails_rule _ (fails_rest (fails_bind (fails_text "dataflow_cluster" 'd' c rest rfl hc hd)))

end Clusters

section Elements

/-- A function is read where a statement may stand, since clusters and
    selections come first in the grammar and are refused. -/
theorem reads_dflowStmt_of_noBlock {cs rest : List Char} {st : Checked Statement} (fuel : Nat)
    (hblock : NoBlock cs) (hfunc : Reads (funcStmt fuel) cs st rest) :
    Reads (dflowStmt fuel) cs st rest := by
  have hcluster : Fails (cluster fuel) cs := hblock.cluster _
  have hselect : Fails selectStmt cs := by
    unfold selectStmt
    exact fails_rule _ (fails_rest (fails_bind hblock.brace))
  exact reads_rule _ (reads_orElse_right hcluster (reads_orElse_right hselect
    (reads_orElse_left hfunc)))

/-- A printed function is read where a statement may stand. -/
theorem reads_dflowStmt_func (fuel : Nat) (f : Func ChannelId DataflowCircuit.Expr)
    (hf : f.WellFormed s.Named (Expr.Readable s)) (hfuel : (f.chars s).length < fuel)
    (rest : List Char) :
    Reads (dflowStmt fuel) (f.chars s ++ ';' :: rest) (.ok (toStatement (f.written s))) rest := by
  refine reads_dflowStmt_of_noBlock fuel ?_ (reads_funcStmt_written s fuel f hf hfuel rest)
  rw [Func.chars_eq, List.append_assoc, List.append_assoc]
  refine noBlock_expr s f.expr hf.expr _ (endsWord_blank _) ?_
  exact fails_blank ' ' rfl (fails_text "\x7b" '\x7b' '-' _ rfl rfl (by decide))

/-- A selection is read where a statement may stand. -/
theorem reads_dflowStmt_select (fuel : Nat) (text : String)
    (inputs outputs : List (Option ChannelId))
    (st : Statement) (rest : List Char)
    (hread : Reads selectStmt ((selectText s text inputs outputs).toList ++ ';' :: rest)
      (.ok st) rest) :
    Reads (dflowStmt fuel) ((selectText s text inputs outputs).toList ++ ';' :: rest)
      (.ok st) rest := by
  have hcluster : Fails (cluster fuel)
      ((selectText s text inputs outputs).toList ++ ';' :: rest) := by
    -- A selection starts with a brace, and a cluster with a letter.
    have hopen : ∃ cs, (selectText s text inputs outputs).toList ++ ';' :: rest = '\x7b' :: cs := by
      simp [selectText]
    rcases hopen with ⟨cs, hcs⟩
    rw [hcs]
    exact fails_cluster fuel '\x7b' cs rfl (by decide)
  exact reads_rule _ (reads_orElse_right hcluster (reads_orElse_left hread))

/-- The text of an element with what ends it. -/
def elementChars (el : Element ChannelId DataflowCircuit.Expr) : List Char :=
  (el.print s ++ el.terminator).toList

/-- A selection that is printed as its guard, inputs and outputs. -/
theorem reads_element_select (fuel : Nat) (el : Element ChannelId DataflowCircuit.Expr)
    (text : String) (guard : Guard) (inputs outputs : List (Option ChannelId)) (rest : List Char)
    (hprint : el.print s = selectText s text inputs outputs) (hend : el.terminator = ";")
    (hguard : ∀ r, Reads guardSpec (text.toList ++ '\x7d' :: r) guard ('\x7d' :: r))
    (hinputs : ∀ t ∈ inputs, ∀ id ∈ t, s.Named id) (hin : inputs ≠ [])
    (houtputs : ∀ t ∈ outputs, ∀ id ∈ t, s.Named id) (hout : outputs ≠ [])
    (hst : ∀ left, selection left guard (inputs.map (Option.map s.nameOf))
      (outputs.map (Option.map s.nameOf)) = .ok (el.written s)) :
    Reads (dflowStmt fuel) (elementChars s el ++ rest) (.ok (el.written s)) rest := by
  have htext : elementChars s el ++ rest
      = (selectText s text inputs outputs).toList ++ ';' :: rest := by
    unfold elementChars
    rw [hprint, hend, String.toList_append, List.append_assoc]
    rfl
  rw [htext]
  exact reads_dflowStmt_select s fuel text inputs outputs _ rest
    (reads_selectStmt s text guard inputs outputs _ rest hguard hinputs hin houtputs hout hst)

/-- Connected targets have names that can be read if the channels do. -/
theorem named_of_some (ids : List ChannelId) (hids : ∀ id ∈ ids, s.Named id) :
    ∀ t ∈ ids.map some, ∀ id ∈ t, s.Named id := by
  intro t ht id hid
  rcases List.mem_map.mp ht with ⟨id', hid', rfl⟩
  cases hid
  exact hids id hid'

/-- A target that is connected is printed as its channel. -/
theorem printTarget_comp_some : printTarget s ∘ some = s.nameOf := rfl

/-- An element is read back. -/
theorem reads_dflowStmt (fuel : Nat) (el : Element ChannelId DataflowCircuit.Expr)
    (hel : el.Readable s) (hfuel : (elementChars s el).length ≤ fuel) (rest : List Char) :
    Reads (dflowStmt fuel) (elementChars s el ++ rest) (.ok (el.written s)) rest := by
  cases el with
  | func f =>
      have htext : elementChars s (.func f) ++ rest = f.chars s ++ ';' :: rest := by
        simp [elementChars, Element.print_func, Element.terminator, Func.chars]
      have hlen : (f.chars s).length < fuel := by
        have hlen := congrArg List.length htext
        simp only [List.length_append, List.length_cons] at hlen
        omega
      have hread := reads_dflowStmt_func s fuel f hel.1 hlen rest
      rw [toStatement_func s f hel.2] at hread
      rw [htext]
      exact hread
  | split guard input outputs =>
      refine reads_element_select s fuel _ (s.nameOf guard) (.channel (s.nameOf guard)) [some input]
        outputs rest ?_ rfl (reads_guard_channel s guard hel.1)
        (named_of_some s [input] (by simpa using hel.2.1)) (by simp) hel.2.2.1 ?_ ?_
      · simp [Element.print_split, selectText, printTarget]
      · intro hnil
        have hlen := hel.2.2.2
        rw [hnil] at hlen
        cases hlen
      · intro left
        refine selection_split left _ _ _ ?_
        rw [List.length_map]
        exact hel.2.2.2
  | merge guard inputs output =>
      refine reads_element_select s fuel _ (s.nameOf guard) (.channel (s.nameOf guard))
        (inputs.map some) [some output] rest ?_ rfl (reads_guard_channel s guard hel.1)
        (named_of_some s inputs hel.2.1) (by simpa using hel.2.2.2)
        (named_of_some s [output] (by simpa using hel.2.2.1)) (by simp)
        fun left => selection_merge s left _ inputs output
      simp [Element.print_merge, selectText, printChannels, printTarget_comp_some, printTarget]
  | mixer inputs output =>
      refine reads_element_select s fuel _ "*" .mixer (inputs.map some) [some output] rest ?_ rfl
        reads_guard_mixer (named_of_some s inputs hel.1) (by simpa using hel.2.2)
        (named_of_some s [output] (by simpa using hel.2.1)) (by simp)
        fun left => selection_mixer s left inputs output
      simp [Element.print_mixer, selectText, printChannels, printTarget_comp_some, printTarget]
  | arbiter inputs output ctrl =>
      refine reads_element_select s fuel _ "|" .arbiter (inputs.map some) [some output, some ctrl]
        rest ?_ rfl reads_guard_arbiter (named_of_some s inputs hel.1) (by simpa using hel.2.2.2)
        (named_of_some s [output, ctrl] (by simpa using ⟨hel.2.1, hel.2.2.1⟩)) (by simp)
        fun left => selection_arbiter s left inputs output ctrl
      simp [Element.print_arbiter, selectText, printChannels, printTarget_comp_some, printTarget,
        String.append_assoc]
  | sink input =>
      -- A sink is written as a function that goes nowhere.
      have hf : (⟨.var input, none, none⟩ : Func ChannelId DataflowCircuit.Expr).WellFormed
          s.Named (Expr.Readable s) := by
        refine ⟨hel, ?_, ?_, ?_⟩ <;> intro b hb <;> cases hb
      have htext : elementChars s (.sink input) ++ rest
          = Func.chars s ⟨.var input, none, none⟩ ++ ';' :: rest := by
        simp [elementChars, Element.print_sink, Element.terminator, Func.chars, Func.print,
          Expr.print, printTarget]
      have hlen : (Func.chars s ⟨.var input, none, none⟩).length < fuel := by
        have hlen := congrArg List.length htext
        simp only [List.length_append, List.length_cons] at hlen
        omega
      rw [htext]
      exact reads_dflowStmt_func s fuel _ hf hlen rest
  | cluster funcs =>
      have htext : elementChars s (.cluster funcs) = ((Element.cluster funcs).print s).toList := by
        simp [elementChars, Element.terminator]
      have hlen : ∀ f ∈ funcs, (f.chars s).length < fuel := by
        intro f hf
        have hmem := length_member_le s f funcs hf
        rw [htext] at hfuel
        omega
      rw [htext]
      -- A cluster is tried first, and ends with its brace instead of a semicolon.
      exact reads_rule _ (reads_orElse_left (reads_cluster s fuel funcs hel hlen rest))

/-- The text of an element starts with no blank. -/
theorem skip_element (el : Element ChannelId DataflowCircuit.Expr) (hel : el.Readable s)
    (rest : List Char) : skip (elementChars s el ++ rest) = elementChars s el ++ rest := by
  have hsolid : ∃ c, (elementChars s el).head? = some c ∧ isSolid c = true := by
    cases el with
    | func f =>
        rcases chars_cons s f.expr hel.1.expr with ⟨c, cs, hcs, hc⟩
        have htext : elementChars s (.func f) = f.chars s ++ [';'] := by
          simp [elementChars, Element.print_func, Element.terminator, Func.chars]
        rw [htext, Func.chars_eq, hcs]
        exact ⟨c, rfl, hc⟩
    | sink input =>
        rcases isReference_cons _ (IsName.reference hel) with ⟨c, cs, hcs, hc⟩
        simp only [elementChars, Element.print_sink, String.toList_append, hcs]
        exact ⟨c, rfl, isSolid_of_isTail c (isTail_of_isHead c hc)⟩
    | split guard input outputs => exact ⟨'\x7b', by simp [elementChars, Element.print_split], rfl⟩
    | merge guard inputs output => exact ⟨'\x7b', by simp [elementChars, Element.print_merge], rfl⟩
    | mixer inputs output => exact ⟨'\x7b', by simp [elementChars, Element.print_mixer], rfl⟩
    | arbiter inputs output ctrl =>
        exact ⟨'\x7b', by simp [elementChars, Element.print_arbiter], rfl⟩
    | cluster funcs => exact ⟨'d', by simp [elementChars, Element.print_cluster], rfl⟩
  -- Only the first character matters for what is skipped.
  rcases hsolid with ⟨c, hhead, hc⟩
  rcases List.head?_eq_some_iff.mp hhead with ⟨cs, hcs⟩
  rw [hcs]
  exact skip_isSolid c (cs ++ rest) hc

/-- No statement starts with the end of a block. -/
theorem fails_dflowStmt_close (fuel : Nat) (rest : List Char) :
    Fails (dflowStmt fuel) ('\x7d' :: rest) := by
  have hcluster := fails_cluster fuel '\x7d' rest rfl (by decide)
  have hselect : Fails selectStmt ('\x7d' :: rest) := by
    unfold selectStmt
    exact fails_rule _ (fails_rest (fails_bind
      (fails_text "\x7b" '\x7b' '\x7d' rest rfl rfl (by decide))))
  exact fails_rule _ (fails_orElse hcluster (fails_orElse hselect
    (fails_orElse (fails_funcStmt_close fuel rest) fails_fail)))

/-- The line of an element in a block. -/
def elementLine (el : Element ChannelId DataflowCircuit.Expr) : List Char :=
  "    ".toList ++ (elementChars s el ++ ['\n'])

/-- The elements of a block are read back in rounds. -/
theorem rounds_elements (fuel : Nat) (els : List (Element ChannelId DataflowCircuit.Expr))
    (hels : ∀ el ∈ els, el.Readable s) (hfuel : ∀ el ∈ els, (elementChars s el).length ≤ fuel)
    (rest : List Char) :
    Rounds (dflowStmt fuel) (els.flatMap (elementLine s) ++ ' ' :: ' ' :: '\x7d' :: rest)
      (els.map fun el => .ok (el.written s)) (' ' :: ' ' :: '\x7d' :: rest) := by
  have hstop : Fails (dflowStmt fuel) (' ' :: ' ' :: '\x7d' :: rest) :=
    fails_blank ' ' rfl (fails_blank ' ' rfl (fails_dflowStmt_close fuel rest))
  rw [← List.append_nil (els.map _)]
  refine rounds_flatMap _ _ els ?_ (Rounds.done _ hstop)
  intro el hel r
  have htext : elementLine s el ++ r
      = ' ' :: ' ' :: ' ' :: ' ' :: (elementChars s el ++ '\n' :: r) := by
    simp [elementLine]
  have hread := reads_leave_blank '\n' rfl
    (reads_dflowStmt s fuel el (hels el hel) (hfuel el hel) ('\n' :: r))
  rw [htext]
  refine ⟨reads_blank ' ' rfl (reads_blank ' ' rfl (reads_blank ' ' rfl
    (reads_blank ' ' rfl hread))), ?_⟩
  rw [skip_space ' ' _ rfl, skip_space ' ' _ rfl, skip_space ' ' _ rfl, skip_space ' ' _ rfl,
    skip_element s el (hels el hel), List.length_append, List.length_cons]
  omega

/-- A dataflow block is read from its parts. -/
theorem reads_dataflow {cs cs₁ cs₂ cs₃ rest : List Char} (fuel : Nat) (sts : List Statement)
    (hopen : Reads (literal "dataflow") cs () cs₁) (hbrace : Reads (literal "\x7b") cs₁ () cs₂)
    (hstatements : Rounds (dflowStmt fuel) cs₂ (sts.map .ok) cs₃)
    (hclose : Reads (literal "\x7d") cs₃ () rest) :
    Reads (dataflow fuel) cs (.ok sts) rest := by
  rw [← joined_map_ok]
  unfold dataflow
  exact reads_rule _ (reads_seq hopen (reads_seq hbrace (reads_seq (reads_repeated hstatements)
    (reads_return hclose))))

/-- A printed dataflow block is read back. -/
theorem reads_dataflow_written (fuel : Nat) (els : List (Element ChannelId DataflowCircuit.Expr))
    (hels : ∀ el ∈ els, el.Readable s) (hfuel : ∀ el ∈ els, (elementChars s el).length ≤ fuel)
    (rest : List Char) :
    Reads (dataflow fuel) ("dataflow".toList ++ ' ' :: '\x7b' :: '\n' ::
      (els.flatMap (elementLine s) ++ ' ' :: ' ' :: '\x7d' :: rest))
      (.ok (els.map (Element.written s))) rest := by
  have hbrace : ∀ cs, Reads (literal "\x7b") (' ' :: '\x7b' :: '\n' :: cs) () cs := fun cs =>
    reads_blank ' ' rfl (reads_leave_blank '\n' rfl (reads_text "\x7b" '\x7b' ('\n' :: cs) rfl rfl))
  have hclose : Reads (literal "\x7d") (' ' :: ' ' :: '\x7d' :: rest) () rest :=
    reads_blank ' ' rfl (reads_blank ' ' rfl (reads_text "\x7d" '\x7d' rest rfl rfl))
  have hrounds := rounds_elements s fuel els hels hfuel rest
  have hmap : (els.map fun el => (.ok (el.written s) : Checked Statement))
      = (els.map (Element.written s)).map .ok := by
    rw [List.map_map]
    rfl
  rw [hmap] at hrounds
  exact reads_dataflow fuel _ (reads_text "dataflow" 'd' _ rfl rfl) (hbrace _) hrounds hclose

end Elements

end Source

end DataflowCircuit
