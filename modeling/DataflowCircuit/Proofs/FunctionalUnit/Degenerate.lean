import DataflowCircuit.Proofs.FunctionalUnit.Evaluation

/-!
# Degenerate Expressions

Some expressions are refused although every name in them is known: an operation
whose operands are all literals could have been computed beforehand, and a
conditional whose branches are alike decides nothing. What is refused is said of
the expression alone. The checks themselves are made on operands, after the
parts of an operation have been lowered into a builder that may hold the
statements of other expressions, so it has to be shown that operands show what
the parts looked like.

They do because casts leave no trace. A literal under casts is a constant
operand and a channel under casts is an argument, in the slot that its channel
has; everything else is a result. Slots are equal exactly if their channels are,
since a channel keeps its slot while other channels get theirs. Results are
never equal, because a result is newer than everything that was lowered before
it. What the builder held at the start does not matter for any of this, so it is
arbitrary.

## Main definitions

* `Expr.subexpressions`: An expression and everything inside it.
* `Expr.Degenerate`: An operation on literals only, or a conditional with
  branches that are alike.
* `Expr.Shows`: What an operand says about its expression.
* `UnitBuilder.FailsIf`: A step that fails exactly on a condition.

## Theorems

* `failsIf_bind`: Where a sequence fails.
* `lower_shows`: The operand shows whether an expression is a leaf under casts.
* `operands_eq_iff`: Operands are equal exactly if they stand for the same leaf.
* `failsIf_lower`: Lowering fails exactly on degenerate expressions.
* `lowerOutput_fails_iff`: So does lowering a function body, which must not be a
  literal either.
-/

namespace DataflowCircuit

namespace Expr

/-- An expression and everything inside it. -/
def subexpressions : Expr → List Expr
  | .const v => [.const v]
  | .var id => [.var id]
  | .binary op lhs rhs => .binary op lhs rhs :: (lhs.subexpressions ++ rhs.subexpressions)
  | .unary op arg => .unary op arg :: arg.subexpressions
  | .query c t e =>
    .query c t e :: (c.subexpressions ++ t.subexpressions ++ e.subexpressions)
  | .cast arg w => .cast arg w :: arg.subexpressions

/-- Is the expression a literal or a channel? -/
def isLeaf : Expr → Bool
  | .const _ | .var _ => true
  | _ => false

/-- Is the expression a literal, possibly under casts? -/
def isLiteral (e : Expr) : Bool :=
  e.asConst?.isSome

/-- An operation whose operands are literals, or a conditional with the same
    literal or the same channel in both branches. Casts do not matter. -/
def Degenerate : Expr → Prop
  | .unary _ arg => arg.isLiteral
  | .binary _ lhs rhs => lhs.isLiteral ∧ rhs.isLiteral
  | .query c t e =>
    (t.peel.isLeaf ∧ t.peel = e.peel) ∨ (c.isLiteral ∧ t.isLiteral ∧ e.isLiteral)
  | _ => False

/-- Whether an expression is degenerate is seen at its outermost operation. -/
instance : DecidablePred Degenerate
  | .unary _ arg => inferInstanceAs (Decidable (arg.isLiteral = true))
  | .binary _ lhs rhs => inferInstanceAs (Decidable (lhs.isLiteral = true ∧ rhs.isLiteral = true))
  | .query c t e => inferInstanceAs (Decidable ((t.peel.isLeaf = true ∧ t.peel = e.peel) ∨
      (c.isLiteral = true ∧ t.isLiteral = true ∧ e.isLiteral = true)))
  | .const _ | .var _ | .cast _ _ => inferInstanceAs (Decidable False)

/-- Is anything inside an expression degenerate? -/
def HasDegenerate (e : Expr) : Prop :=
  ∃ x ∈ e.subexpressions, x.Degenerate

/-- A literal is not degenerate. -/
theorem not_hasDegenerate_const (v : Nat) : ¬ (Expr.const v).HasDegenerate := by
  rintro ⟨x, hx, hdeg⟩
  rw [List.mem_singleton.mp hx] at hdeg
  exact hdeg

/-- Neither is a channel. -/
theorem not_hasDegenerate_var (id : ChannelId) : ¬ (Expr.var id).HasDegenerate := by
  rintro ⟨x, hx, hdeg⟩
  rw [List.mem_singleton.mp hx] at hdeg
  exact hdeg

/-- A cast adds nothing that could be degenerate. -/
theorem hasDegenerate_cast (arg : Expr) (w : Option Nat) :
    (Expr.cast arg w).HasDegenerate ↔ arg.HasDegenerate := by
  simp only [HasDegenerate, subexpressions, List.mem_cons, or_and_right, exists_or,
    exists_eq_left]
  exact iff_of_eq (false_or _)

/-- A unary operation adds itself, on a literal. -/
theorem hasDegenerate_unary (op : UnOp) (arg : Expr) :
    (Expr.unary op arg).HasDegenerate ↔ arg.HasDegenerate ∨ arg.isLiteral = true := by
  simp only [HasDegenerate, subexpressions, List.mem_cons, or_and_right, exists_or,
    exists_eq_left]
  exact or_comm

/-- A binary operation adds itself, on two literals. -/
theorem hasDegenerate_binary (op : BinOp) (lhs rhs : Expr) :
    (Expr.binary op lhs rhs).HasDegenerate ↔
      lhs.HasDegenerate ∨ rhs.HasDegenerate ∨ lhs.isLiteral = true ∧ rhs.isLiteral = true := by
  simp only [HasDegenerate, subexpressions, List.mem_cons, List.mem_append, or_and_right,
    exists_or, exists_eq_left]
  rw [or_comm, or_assoc]
  rfl

/-- A conditional adds itself, on one leaf in both branches or on literals. -/
theorem hasDegenerate_query (c t e : Expr) :
    (Expr.query c t e).HasDegenerate ↔
      c.HasDegenerate ∨ t.HasDegenerate ∨ e.HasDegenerate ∨
        (t.peel.isLeaf = true ∧ t.peel = e.peel) ∨
          (c.isLiteral = true ∧ t.isLiteral = true ∧ e.isLiteral = true) := by
  simp only [HasDegenerate, subexpressions, List.mem_cons, List.mem_append, or_and_right,
    exists_or, exists_eq_left]
  rw [or_comm, or_assoc, or_assoc]
  rfl

end Expr

namespace UnitBuilder

section Failing

variable {α β : Type} {element : String} {P Q : Prop} {b : UnitBuilder}

/-- A step that, run from `b`, fails exactly if `P` holds, and then because the
    element `element` is malformed. -/
def FailsIf (element : String) (P : Prop) (m : Step α) (b : UnitBuilder) : Prop :=
  (¬ P ∧ ∃ a b', m b = .ok a b') ∨
    (P ∧ ∃ fault b', m b = .error (.malformedElement element fault) b')

/-- The condition may be replaced by an equivalent one. -/
theorem FailsIf.congr {m : Step α} (h : FailsIf element P m b) (hPQ : P ↔ Q) :
    FailsIf element Q m b := by
  rcases h with ⟨hP, hok⟩ | ⟨hP, herror⟩
  · exact Or.inl ⟨fun hQ => hP (hPQ.mpr hQ), hok⟩
  · exact Or.inr ⟨hPQ.mp hP, herror⟩

/-- A step that succeeds fails on no condition. -/
theorem failsIf_of_ok {m : Step α} {a : α} {b' : UnitBuilder} (h : m b = .ok a b') :
    FailsIf element False m b :=
  Or.inl ⟨id, a, b', h⟩

/-- A sequence fails where its first part fails, or else where the rest does. -/
theorem failsIf_bind {m : Step α} {k : α → Step β} (hm : FailsIf element P m b)
    (hk : ∀ a b', m b = .ok a b' → FailsIf element Q (k a) b') :
    FailsIf element (P ∨ Q) (m >>= k) b := by
  rcases hm with ⟨hP, a, b₁, hrun⟩ | ⟨hP, fault, b₁, hrun⟩
  · rcases hk a b₁ hrun with ⟨hQ, c, b₂, hrest⟩ | ⟨hQ, fault, b₂, hrest⟩
    · exact Or.inl ⟨not_or_intro hP hQ, c, b₂, bind_ok_iff.mpr ⟨a, b₁, hrun, hrest⟩⟩
    · exact Or.inr ⟨Or.inr hQ, fault, b₂,
        bind_error_iff.mpr (Or.inr ⟨a, b₁, hrun, hrest⟩)⟩
  · exact Or.inr ⟨Or.inl hP, fault, b₁, bind_error_iff.mpr (Or.inl hrun)⟩

/-- A check fails where it fires, or else where the rest does. -/
theorem failsIf_guard (c : Prop) [Decidable c] (fault : ShapeFault) {k : PUnit → Step β}
    (hk : FailsIf element Q (k PUnit.unit) b) :
    FailsIf element (c ∨ Q)
      (if c then throw (.malformedElement element fault) >>= k else k PUnit.unit) b := by
  by_cases hc : c
  · rw [if_pos hc]
    exact Or.inr ⟨Or.inl hc, fault, b, rfl⟩
  · rw [if_neg hc]
    exact hk.congr (by simp [hc])

/-- Asking for the argument of a channel that has a width does not fail. -/
theorem failsIf_arg (s : Scope) (id w : Nat) (hw : s.width id = .ok w) :
    FailsIf element False (arg s id) b := by
  -- The width is only looked up for a channel without a slot.
  cases hslot : b.args.idxOf? id with
  | some slot =>
      have hrun : arg s id b = .ok (.arg slot) b := by
        rw [arg, get_bind_apply, hslot]
        rfl
      exact failsIf_of_ok hrun
  | none =>
      have hrun : arg s id b = .ok (.arg b.args.length) (b.addArg id w) := by
        rw [arg, get_bind_apply, hslot, hw]
        rfl
      exact failsIf_of_ok hrun

/-- Adding a statement does not fail, nor does what follows it here. -/
theorem failsIf_push (t : NameToken) (op : Operation) (w : Nat) (k : Nat → α) :
    FailsIf element False (do return k (← push t op w)) b :=
  failsIf_of_ok rfl

end Failing

end UnitBuilder

namespace Expr

open UnitBuilder

variable (s : Scope) (element : String)

/-- A channel is looked for in old slots before new ones. -/
theorem idxOf?_append (args more : List ChannelId) (id : ChannelId) :
    (args ++ more).idxOf? id
      = (args.idxOf? id).or ((more.idxOf? id).map (· + args.length)) :=
  List.findIdx?_append

/-- What the operand says that was handed back for an expression, given with its
    casts removed, when the builder went from `b` to `b'`. -/
inductive Shows (b b' : UnitBuilder) : Expr → Operand → Prop where
  | literal (v : Nat) : Shows b b' (.const v) (.const v)
  | channel (id : ChannelId) (slot : Nat) (hslot : b'.args.idxOf? id = some slot) :
      Shows b b' (.var id) (.arg slot)
  | result (e : Expr) (i : Nat) (hleaf : e.isLeaf = false) (hnew : b.statements.length ≤ i)
      (hlt : i < b'.statements.length) : Shows b b' e (.res i)

/-- The operand shows whether an expression is a leaf under casts, and which. -/
theorem lower_shows (e : Expr) (w : Nat) (a : Operand) (b b' : UnitBuilder)
    (h : e.lower s element w b = .ok a b') : Shows b b' e.peel a := by
  -- The number of a result is that of the last statement, which is new.
  have hresult : ∀ (e : Expr) (b₁ : UnitBuilder) t op v, Extends b b₁ → e.isLeaf = false →
      Shows b (b₁.pushed t op v) e (.res b₁.statements.length) := by
    intro e b₁ t op v hext hleaf
    refine .result e _ hleaf hext.statements.length_le ?_
    rw [pushed_statements, List.length_append, List.length_singleton]
    omega
  induction e generalizing w a with
  | const v =>
      rcases lower_const_ok s element v w a b b' h with ⟨rfl, _⟩
      exact .literal v
  | var id =>
      rcases arg_ok s id a b b' h with ⟨slot, hslot, rfl, rfl⟩ | ⟨hnone, v, _, rfl, rfl⟩
      · exact .channel id slot hslot
      · refine .channel id _ ?_
        rw [addArg, idxOf?_append, hnone]
        simp [List.idxOf?]
  -- The operand of the argument is passed on, and the cast is peeled off.
  | cast arg v ih => exact ih (v.getD w) a h
  | unary op arg _ =>
      rcases lower_unary_ok s element op arg w a b b' h with ⟨x, b₁, hx, _, rfl, rfl⟩
      exact hresult _ b₁ _ _ _ (lower_extends s element arg w x b b₁ hx) rfl
  | binary op lhs rhs _ _ =>
      rcases lower_binary_ok s element op lhs rhs w a b b' h with
        ⟨ow, x, b₁, y, b₂, _, hx, hy, _, rfl, rfl⟩
      exact hresult _ b₂ _ _ _ ((lower_extends s element lhs ow x b b₁ hx).trans
        (lower_extends s element rhs ow y b₁ b₂ hy)) rfl
  | query c t e _ _ _ =>
      rcases lower_query_ok s element c t e w a b b' h with
        ⟨x, b₁, y, b₂, z, b₃, hx, hy, hz, _, _, rfl, rfl⟩
      exact hresult _ b₃ _ _ _ (((lower_extends s element c 1 x b b₁ hx).trans
        (lower_extends s element t w y b₁ b₂ hy)).trans
        (lower_extends s element e w z b₂ b₃ hz)) rfl

/-- Operands are constant exactly for literals. -/
theorem isConst_iff_isLiteral {e : Expr} {a : Operand} {b b' : UnitBuilder}
    (h : Shows b b' e.peel a) : a.isConst = true ↔ e.isLiteral = true := by
  unfold isLiteral asConst?
  generalize e.peel = p at h
  cases h with
  | literal v => simp [Operand.isConst]
  | channel id slot hslot => simp [Operand.isConst]
  | result p i hleaf hnew hlt =>
      -- A result is no leaf, so what it stands for is no literal.
      cases p with
      | const v => cases hleaf
      | _ => simp [Operand.isConst]

/-- Operands handed back one after the other are equal exactly if they stand for
    the same leaf: slots belong to one channel each, and a result is newer than
    every earlier one. -/
theorem operands_eq_iff {p q : Expr} {x y : Operand} {b₁ b₂ b₃ : UnitBuilder}
    (hp : Shows b₁ b₂ p x) (hq : Shows b₂ b₃ q y) (hext : Extends b₂ b₃) :
    x = y ↔ p.isLeaf = true ∧ p = q := by
  cases hp with
  | literal v =>
      cases hq with
      | literal u => simp [isLeaf]
      | channel id slot hslot => simp
      | result q i hleaf hnew hlt =>
          refine ⟨fun (hc : Operand.const v = .res i) => Operand.noConfusion hc, ?_⟩
          rintro ⟨_, rfl⟩
          cases hleaf
  | channel id slot hslot =>
      cases hq with
      | literal u => simp
      | channel id' slot' hslot' =>
          -- The slot of the first channel is still its slot when the second one is found.
          rcases hext.args with ⟨more, hmore⟩
          have hkept : b₃.args.idxOf? id = some slot := by
            rw [← hmore, idxOf?_append, hslot]
            rfl
          constructor
          · intro heq
            cases heq
            rcases List.idxOf?_eq_some_iff.mp hkept with ⟨hlt, hid, _⟩
            rcases List.idxOf?_eq_some_iff.mp hslot' with ⟨_, hid', _⟩
            exact ⟨rfl, by rw [← hid, ← hid']⟩
          · rintro ⟨_, heq⟩
            cases heq
            rw [hkept, Option.some.injEq] at hslot'
            rw [hslot']
      | result q i hleaf hnew hlt =>
          refine ⟨fun (hc : Operand.arg slot = .res i) => Operand.noConfusion hc, ?_⟩
          rintro ⟨_, rfl⟩
          cases hleaf
  | result p i hleaf hnew hlt =>
      -- Equal results would be older than the second expression and added by it.
      refine ⟨fun heq => ?_, fun hpq => absurd hpq.1 (by rw [hleaf]; exact Bool.false_ne_true)⟩
      cases hq with
      | literal u => cases heq
      | channel id slot hslot => cases heq
      | result q j hleaf' hnew' hlt' =>
          cases heq
          omega

/-- Every channel inside an expression has a width. -/
def Measured (e : Expr) : Prop :=
  ∀ id, .var id ∈ e.subexpressions → ∃ w, s.width id = .ok w

variable {s}

/-- The argument of a unary operation is inside it. -/
theorem measured_unary {op : UnOp} {arg : Expr} (h : (Expr.unary op arg).Measured s) :
    arg.Measured s :=
  fun id hid => h id (List.mem_cons_of_mem _ hid)

/-- So is the argument of a cast. -/
theorem measured_cast {arg : Expr} {w : Option Nat} (h : (Expr.cast arg w).Measured s) :
    arg.Measured s :=
  fun id hid => h id (List.mem_cons_of_mem _ hid)

/-- So are the sides of a binary operation. -/
theorem measured_binary {op : BinOp} {lhs rhs : Expr}
    (h : (Expr.binary op lhs rhs).Measured s) : lhs.Measured s ∧ rhs.Measured s :=
  ⟨fun id hid => h id (List.mem_cons_of_mem _ (List.mem_append_left _ hid)),
    fun id hid => h id (List.mem_cons_of_mem _ (List.mem_append_right _ hid))⟩

/-- So are the parts of a conditional. -/
theorem measured_query {c t e : Expr} (h : (Expr.query c t e).Measured s) :
    c.Measured s ∧ t.Measured s ∧ e.Measured s :=
  ⟨fun id hid => h id
      (List.mem_cons_of_mem _ (List.mem_append_left _ (List.mem_append_left _ hid))),
    fun id hid => h id
      (List.mem_cons_of_mem _ (List.mem_append_left _ (List.mem_append_right _ hid))),
    fun id hid => h id (List.mem_cons_of_mem _ (List.mem_append_right _ hid))⟩

/-- If all channels have widths, so does the expression. -/
theorem naturalWidth_of_measured (e : Expr) (h : e.Measured s) :
    ∃ w, e.naturalWidth s = .ok w := by
  induction e with
  | const v => exact ⟨_, rfl⟩
  | var id => exact h id List.mem_cons_self
  | binary op lhs rhs ihl ihr =>
      rcases ihl (measured_binary h).1 with ⟨l, hl⟩
      rcases ihr (measured_binary h).2 with ⟨r, hr⟩
      rw [naturalWidth, hl, hr]
      by_cases hop : op.isComparison = true
      · exact ⟨1, if_pos hop⟩
      · exact ⟨max l r, if_neg hop⟩
  | unary op arg ih => exact ih (measured_unary h)
  -- The condition does not count.
  | query c t e _ iht ihe =>
      rcases iht (measured_query h).2.1 with ⟨l, hl⟩
      rcases ihe (measured_query h).2.2 with ⟨r, hr⟩
      rw [naturalWidth, hl, hr]
      exact ⟨max l r, rfl⟩
  | cast arg w ih =>
      cases w with
      | none => exact ih (measured_cast h)
      | some w => exact ⟨w, rfl⟩

/-- So is the width at which the sides of an operation are lowered. -/
theorem operandWidth_of_measured (op : BinOp) (lhs rhs : Expr) (width : Nat)
    (h : (Expr.binary op lhs rhs).Measured s) :
    ∃ w, operandWidth s op lhs rhs width = .ok w := by
  rcases naturalWidth_of_measured lhs (measured_binary h).1 with ⟨l, hl⟩
  rcases naturalWidth_of_measured rhs (measured_binary h).2 with ⟨r, hr⟩
  rw [operandWidth, hl, hr]
  by_cases hop : op.isComparison = true
  · exact ⟨max l r, if_pos hop⟩
  · exact ⟨width, if_neg hop⟩

variable (s)

/-- Lowering fails exactly on expressions with something degenerate inside. -/
theorem failsIf_lower (e : Expr) (w : Nat) (b : UnitBuilder) (h : e.Measured s) :
    FailsIf element e.HasDegenerate (e.lower s element w) b := by
  induction e generalizing w b with
  | const v => exact (failsIf_of_ok rfl).congr (iff_of_false id (not_hasDegenerate_const v))
  | var id' =>
      rcases h id' List.mem_cons_self with ⟨v, hv⟩
      exact (failsIf_arg s id' v hv).congr (iff_of_false id (not_hasDegenerate_var id'))
  | cast arg v ih =>
      exact (ih (v.getD w) b (measured_cast h)).congr (hasDegenerate_cast arg v).symm
  | unary op arg ih =>
      refine FailsIf.congr ?_ (hasDegenerate_unary op arg).symm
      refine failsIf_bind (ih w b (measured_unary h)) fun x b₁ hx => ?_
      refine (failsIf_guard _ _ (failsIf_push _ _ _ _)).congr ?_
      rw [or_false, isConst_iff_isLiteral (lower_shows s element arg w x b b₁ hx)]
  | binary op lhs rhs ihl ihr =>
      rcases operandWidth_of_measured op lhs rhs w h with ⟨ow, how⟩
      refine FailsIf.congr ?_
        ((iff_of_eq (false_or _)).trans (hasDegenerate_binary op lhs rhs).symm)
      -- The width of the sides is found, since all channels have one, so the first step never
      -- fails.
      refine failsIf_bind (failsIf_of_ok (lift_ok_iff.mpr ⟨how, rfl⟩))
        fun v b₀ _ => ?_
      refine failsIf_bind (ihl v b₀ (measured_binary h).1) fun x b₁ hx => ?_
      refine failsIf_bind (ihr v b₁ (measured_binary h).2) fun y b₂ hy => ?_
      refine (failsIf_guard _ _ (failsIf_push _ _ _ _)).congr ?_
      rw [or_false, Bool.and_eq_true,
        isConst_iff_isLiteral (lower_shows s element lhs v x b₀ b₁ hx),
        isConst_iff_isLiteral (lower_shows s element rhs v y b₁ b₂ hy)]
  | query c t e ihc iht ihe =>
      refine FailsIf.congr ?_ (hasDegenerate_query c t e).symm
      refine failsIf_bind (ihc 1 b (measured_query h).1) fun x b₁ hx => ?_
      refine failsIf_bind (iht w b₁ (measured_query h).2.1) fun y b₂ hy => ?_
      refine failsIf_bind (ihe w b₂ (measured_query h).2.2) fun z b₃ hz => ?_
      -- The code compares operands and the statement compares expressions: `operands_eq_iff` is
      -- between the two.
      have hy' := lower_shows s element t w y b₁ b₂ hy
      have hz' := lower_shows s element e w z b₂ b₃ hz
      refine (failsIf_guard _ _ (failsIf_guard _ _ (failsIf_push _ _ _ _))).congr ?_
      rw [or_false, operands_eq_iff hy' hz' (lower_extends s element e w z b₂ b₃ hz),
        Bool.and_eq_true, Bool.and_eq_true,
        isConst_iff_isLiteral (lower_shows s element c 1 x b b₁ hx),
        isConst_iff_isLiteral hy', isConst_iff_isLiteral hz', and_assoc]

/-- Lowering a function body fails on those and on literals. -/
theorem failsIf_lowerOutput (e : Expr) (w : Nat) (b : UnitBuilder) (h : e.Measured s) :
    FailsIf element (e.HasDegenerate ∨ e.isLiteral = true) (e.lowerOutput s element w) b := by
  refine failsIf_bind (failsIf_lower s element e w b h) fun a b' ha => ?_
  have hshows := lower_shows s element e w a b b' ha
  refine FailsIf.congr ?_ (isConst_iff_isLiteral hshows)
  -- Only a constant operand is refused, on top of what failed already.
  cases a with
  | const v => exact Or.inr ⟨rfl, _, _, rfl⟩
  | res i => exact Or.inl ⟨Bool.false_ne_true, _, _, rfl⟩
  | arg slot => exact Or.inl ⟨Bool.false_ne_true, _, _, rfl⟩

/-- Lowering a function body of which all channels have a width fails exactly if
    the body is a literal under casts or something inside it is degenerate, and
    the failure then names the element as malformed. Neither the width nor what
    was lowered before plays a part. -/
theorem lowerOutput_fails_iff (e : Expr) (width : Nat) (b : UnitBuilder)
    (hwidths : ∀ id, .var id ∈ e.subexpressions → ∃ w, s.width id = .ok w) :
    ((∃ err b', e.lowerOutput s element width b = .error err b') ↔
      e.isLiteral = true ∨ ∃ x ∈ e.subexpressions, x.Degenerate) ∧
    ∀ err b', e.lowerOutput s element width b = .error err b' →
      ∃ fault, err = .malformedElement element fault := by
  rcases failsIf_lowerOutput s element e width b hwidths with
    ⟨hnot, i, b₁, hok⟩ | ⟨hdeg, fault, b₁, herror⟩
  · refine ⟨⟨?_, fun h => absurd h.symm hnot⟩, ?_⟩
    · rintro ⟨err, b', h⟩
      rw [hok] at h
      cases h
    · intro err b' h
      rw [hok] at h
      cases h
  · refine ⟨⟨fun _ => hdeg.symm, fun _ => ⟨_, b₁, herror⟩⟩, ?_⟩
    intro err b' h
    rw [herror] at h
    cases h
    exact ⟨fault, rfl⟩

/-- After a sum of the same channels was lowered, an expression with a conditional
    inside that takes the second channel either way, once under a cast, is
    refused as malformed. -/
theorem lowerOutput_fails_after_sum :
    let s : Scope := ⟨[⟨"a", .int 8, .port .input, 0⟩, ⟨"b", .int 16, .port .input, 1⟩,
      ⟨"g", .bool, .port .input, 2⟩]⟩
    let e : Expr := .unary .neg (.query (.var 2) (.cast (.var 1) (some 4)) (.var 1))
    (∀ id, .var id ∈ e.subexpressions → ∃ w, s.width id = .ok w) ∧
      ∃ b, lowerOutputs s "" [(.binary .add (.var 0) (.var 1), 8)] .empty = .ok [0] b ∧
        ∃ fault b', e.lowerOutput s "" 8 b = .error (.malformedElement "" fault) b' := by
  intro s e
  have hwidths : ∀ id, .var id ∈ e.subexpressions → ∃ w, s.width id = .ok w := by
    intro id hid
    have hmem : id = 2 ∨ id = 1 := by simpa [e, subexpressions] using hid
    rcases hmem with rfl | rfl
    · exact ⟨1, rfl⟩
    · exact ⟨16, rfl⟩
  refine ⟨hwidths, _, rfl, ?_⟩
  rcases lowerOutput_fails_iff s "" e 8 _ hwidths with ⟨hiff, hmalformed⟩
  -- The conditional inside the negation is the degenerate part.
  have hdeg : e.isLiteral = true ∨ ∃ x ∈ e.subexpressions, x.Degenerate :=
    Or.inr (by decide)
  rcases hiff.mpr hdeg with ⟨err, b', herror⟩
  rcases hmalformed err b' herror with ⟨fault, rfl⟩
  exact ⟨fault, b', herror⟩

end Expr

end DataflowCircuit
