import DataflowCircuit.Analysis.Reads
import DataflowCircuit.FunctionalUnit.Builder
import DataflowCircuit.Proofs.Basic.Steps
import Mathlib.Tactic.ByContra

/-!
# Runs of the Unit Builder

What a successful lowering of an expression did to the builder, one lemma per
shape of expression. Every later statement about functional units is an
induction over expressions that takes its cases from here, so the code of
`Expr.lower` is opened in this file only.

A builder only ever grows. Its arguments, argument widths and statements are
appended to and never changed, which is what keeps an operand valid while the
rest of an expression, or the rest of a cluster, is lowered. `Extends` is that
relation, and `lower_extends` says that lowering respects it.

The arguments are appended in a fixed order, that of `Expr.addReads`. The two
traversals of an expression, one that finds channels to read and one that
finds argument slots, therefore agree slot by slot.

## Main definitions

* `Operation.token`: The piece of a name that stands for an operation.
* `UnitBuilder.Extends`: A builder grown from another.
* `UnitBuilder.Numbered`: Statements are numbered by their positions.

## Theorems

* `arg_ok`, `push_ok`: The two ways to grow a builder.
* `lower_unary_ok`, `lower_binary_ok`, `lower_query_ok`: The parts of a
  successful lowering.
* `lowerOutput_ok`: The two ways to lower a function body.
* `lower_invariant`, `lowerOutput_invariant`: What both ways to grow a builder
  keep, lowering keeps.
* `lower_extends`: Lowering only appends.
* `lowerOutput_numbered`: Lowering numbers statements by their positions.
* `lower_args`, `lowerOutput_args`: Arguments are appended in reading order.
-/

namespace DataflowCircuit

/-- The piece of a unit name that stands for an operation. -/
def Operation.token : Operation → NameToken
  | .binary op lhs rhs => .binary op lhs.mnemonic rhs.mnemonic (lhs = rhs)
  | .unary op arg => .unary op arg.mnemonic
  | .select cond then_ else_ => .query then_.mnemonic cond.mnemonic else_.mnemonic
  | .forward _ => .port

namespace UnitBuilder

/-- A builder grown from `b`: arguments and statements were appended. -/
structure Extends (b b' : UnitBuilder) : Prop where
  args : b.args <+: b'.args
  argWidths : b.argWidths <+: b'.argWidths
  statements : b.statements <+: b'.statements

/-- A builder is grown from itself. -/
theorem Extends.refl (b : UnitBuilder) : Extends b b :=
  ⟨List.prefix_rfl, List.prefix_rfl, List.prefix_rfl⟩

/-- What was grown twice was grown. -/
theorem Extends.trans {b₁ b₂ b₃ : UnitBuilder} (h₁ : Extends b₁ b₂) (h₂ : Extends b₂ b₃) :
    Extends b₁ b₃ :=
  ⟨h₁.args.trans h₂.args, h₁.argWidths.trans h₂.argWidths, h₁.statements.trans h₂.statements⟩

/-- A new argument slot is appended. -/
theorem extends_addArg (b : UnitBuilder) (id : ChannelId) (w : Nat) :
    Extends b (b.addArg id w) :=
  ⟨List.prefix_append _ _, List.prefix_append _ _, List.prefix_rfl⟩

/-- The builder after a named statement was added. -/
def pushed (b : UnitBuilder) (t : NameToken) (op : Operation) (width : Nat) : UnitBuilder :=
  (b.addToken t).addStatement op width

/-- A statement leaves the argument slots alone. -/
theorem pushed_args (b : UnitBuilder) (t : NameToken) (op : Operation) (w : Nat) :
    (b.pushed t op w).args = b.args := rfl

/-- A pushed statement comes last, under the next number. -/
theorem pushed_statements (b : UnitBuilder) (t : NameToken) (op : Operation) (w : Nat) :
    (b.pushed t op w).statements = b.statements ++ [⟨b.statements.length, op, w⟩] := rfl

/-- A pushed statement is appended. -/
theorem extends_pushed (b : UnitBuilder) (t : NameToken) (op : Operation) (w : Nat) :
    Extends b (b.pushed t op w) :=
  ⟨List.prefix_rfl, List.prefix_rfl, List.prefix_append _ _⟩

/-- A statement of a builder after a push is an old one or the new one. -/
theorem getElem?_pushed (b : UnitBuilder) (t : NameToken) (op : Operation) (w i : Nat)
    (st : Statement) (h : (b.pushed t op w).statements[i]? = some st) :
    b.statements[i]? = some st ∨ i = b.statements.length ∧ st = ⟨i, op, w⟩ := by
  rw [pushed_statements] at h
  by_cases hlt : i < b.statements.length
  · rw [List.getElem?_append_left hlt] at h
    exact Or.inl h
  · have hbound := (List.getElem?_eq_some_iff.mp h).1
    rw [List.length_append, List.length_singleton] at hbound
    have hi : i = b.statements.length := by omega
    rw [hi, List.getElem?_concat_length, Option.some.injEq] at h
    exact Or.inr ⟨hi, by rw [← h, hi]⟩

/-- Every statement carries its position as its number. -/
def Numbered (b : UnitBuilder) : Prop :=
  ∀ (i : Nat) (st : Statement), b.statements[i]? = some st → st.index = i

theorem numbered_empty : Numbered empty := by
  intro i st h
  cases h

/-- A pushed statement gets its position as its number. -/
theorem numbered_pushed (b : UnitBuilder) (t : NameToken) (op : Operation) (w : Nat)
    (hb : Numbered b) : Numbered (b.pushed t op w) := by
  intro i st h
  -- An old statement keeps its number, and the new one was numbered when it was pushed.
  rcases getElem?_pushed b t op w i st h with hold | ⟨_, rfl⟩
  · exact hb i st hold
  · rfl

/-- A lifted result succeeds without a change. -/
@[simp] theorem lift_ok_iff {α : Type} {x : Except Error α} {a : α} {b b' : UnitBuilder} :
    lift x b = .ok a b' ↔ x = .ok a ∧ b = b' := by
  cases x with
  | ok a' =>
      rw [lift, pure_ok_iff, Except.ok.injEq]
  | error e =>
      rw [lift, throw_ok_iff]
      simp only [reduceCtorEq, false_and]

/-- A channel is found in the slot it has, or gets the next one. -/
theorem arg_ok (s : Scope) (id : ChannelId) (a : Operand) (b b' : UnitBuilder)
    (h : arg s id b = .ok a b') :
    (∃ slot, b.args.idxOf? id = some slot ∧ a = .arg slot ∧ b' = b) ∨
      (b.args.idxOf? id = none ∧ ∃ w, s.width id = .ok w ∧ a = .arg b.args.length ∧
        b' = b.addArg id w) := by
  unfold arg at h
  rcases bind_ok_iff.mp h with ⟨b₁, b₂, hget, h⟩
  rcases get_ok_iff.mp hget with ⟨rfl, rfl⟩
  -- The slot decides: a channel that was read before costs nothing, and only a new one has its
  -- width looked up.
  cases hslot : b.args.idxOf? id with
  | some slot =>
      rw [hslot] at h
      rcases pure_ok_iff.mp h with ⟨ha, hb⟩
      exact Or.inl ⟨slot, rfl, ha.symm, hb.symm⟩
  | none =>
      rw [hslot] at h
      rcases bind_ok_iff.mp h with ⟨w, b₃, hlift, h⟩
      rcases lift_ok_iff.mp hlift with ⟨hw, rfl⟩
      rcases bind_ok_iff.mp h with ⟨u, b₄, hset, h⟩
      have hb := set_ok_iff.mp hset
      rcases pure_ok_iff.mp h with ⟨ha, rfl⟩
      exact Or.inr ⟨rfl, w, hw, ha.symm, hb.symm⟩

/-- A pushed statement gets the next result number. -/
theorem push_ok (t : NameToken) (op : Operation) (w i : Nat) (b b' : UnitBuilder)
    (h : push t op w b = .ok i b') :
    i = b.statements.length ∧ b' = b.pushed t op w := by
  unfold push at h
  rcases bind_ok_iff.mp h with ⟨b₁, b₂, hget, h⟩
  rcases get_ok_iff.mp hget with ⟨rfl, rfl⟩
  rcases bind_ok_iff.mp h with ⟨u, b₃, hset, h⟩
  have hb := set_ok_iff.mp hset
  rcases pure_ok_iff.mp h with ⟨hi, rfl⟩
  exact ⟨hi.symm, hb.symm⟩

end UnitBuilder

namespace Expr

open UnitBuilder

variable (s : Scope) (element : String)

/-- A constant is its own operand. -/
theorem lower_const_ok (v w : Nat) (a : Operand) (b b' : UnitBuilder)
    (h : (Expr.const v).lower s element w b = .ok a b') : a = .const v ∧ b' = b := by
  unfold lower at h
  rcases pure_ok_iff.mp h with ⟨ha, hb⟩
  exact ⟨ha.symm, hb.symm⟩

/-- A unary operation reads the operand of its argument. -/
theorem lower_unary_ok (op : UnOp) (e : Expr) (w : Nat) (a : Operand) (b b' : UnitBuilder)
    (h : (Expr.unary op e).lower s element w b = .ok a b') :
    ∃ x b₁, e.lower s element w b = .ok x b₁ ∧ x.isConst = false ∧
      a = .res b₁.statements.length ∧
      b' = b₁.pushed (.unary op x.mnemonic) (.unary op x) w := by
  unfold lower at h
  rcases bind_ok_iff.mp h with ⟨x, b₁, hx, h⟩
  rcases guard_ok_iff.mp h with ⟨hconst, h⟩
  rcases bind_ok_iff.mp h with ⟨i, b₂, hpush, h⟩
  rcases push_ok _ _ _ _ _ _ hpush with ⟨rfl, rfl⟩
  rcases pure_ok_iff.mp h with ⟨ha, hb⟩
  exact ⟨x, b₁, hx, by simpa using hconst, ha.symm, hb.symm⟩

/-- A binary operation reads the operands of its sides, the left one lowered
    first. -/
theorem lower_binary_ok (op : BinOp) (lhs rhs : Expr) (w : Nat) (a : Operand)
    (b b' : UnitBuilder)
    (h : (Expr.binary op lhs rhs).lower s element w b = .ok a b') :
    ∃ ow x b₁ y b₂, operandWidth s op lhs rhs w = .ok ow ∧
      lhs.lower s element ow b = .ok x b₁ ∧ rhs.lower s element ow b₁ = .ok y b₂ ∧
      (x.isConst && y.isConst) = false ∧ a = .res b₂.statements.length ∧
      b' = b₂.pushed (.binary op x.mnemonic y.mnemonic (x = y)) (.binary op x y)
        (resultWidth op w) := by
  unfold lower at h
  rcases bind_ok_iff.mp h with ⟨ow, b₀, hlift, h⟩
  rcases lift_ok_iff.mp hlift with ⟨how, rfl⟩
  rcases bind_ok_iff.mp h with ⟨x, b₁, hx, h⟩
  rcases bind_ok_iff.mp h with ⟨y, b₂, hy, h⟩
  rcases guard_ok_iff.mp h with ⟨hconst, h⟩
  rcases bind_ok_iff.mp h with ⟨i, b₃, hpush, h⟩
  rcases push_ok _ _ _ _ _ _ hpush with ⟨rfl, rfl⟩
  rcases pure_ok_iff.mp h with ⟨ha, hb⟩
  exact ⟨ow, x, b₁, y, b₂, how, hx, hy, by simpa using hconst, ha.symm, hb.symm⟩

/-- A conditional reads the operands of its condition and its branches, which
    are lowered in this order. -/
theorem lower_query_ok (c t e : Expr) (w : Nat) (a : Operand) (b b' : UnitBuilder)
    (h : (Expr.query c t e).lower s element w b = .ok a b') :
    ∃ x b₁ y b₂ z b₃, c.lower s element 1 b = .ok x b₁ ∧ t.lower s element w b₁ = .ok y b₂ ∧
      e.lower s element w b₂ = .ok z b₃ ∧ y ≠ z ∧
      (x.isConst && y.isConst && z.isConst) = false ∧ a = .res b₃.statements.length ∧
      b' = b₃.pushed (.query y.mnemonic x.mnemonic z.mnemonic) (.select x y z) w := by
  unfold lower at h
  rcases bind_ok_iff.mp h with ⟨x, b₁, hx, h⟩
  rcases bind_ok_iff.mp h with ⟨y, b₂, hy, h⟩
  rcases bind_ok_iff.mp h with ⟨z, b₃, hz, h⟩
  rcases guard_ok_iff.mp h with ⟨hne, h⟩
  rcases guard_ok_iff.mp h with ⟨hconst, h⟩
  rcases bind_ok_iff.mp h with ⟨i, b₄, hpush, h⟩
  rcases push_ok _ _ _ _ _ _ hpush with ⟨rfl, rfl⟩
  rcases pure_ok_iff.mp h with ⟨ha, hb⟩
  exact ⟨x, b₁, y, b₂, z, b₃, hx, hy, hz, hne, by simpa using hconst, ha.symm, hb.symm⟩

/-- A function body either ends in a result, which is the output, or is a bare
    argument, which a statement of its own forwards. -/
theorem lowerOutput_ok (e : Expr) (w i : Nat) (b b' : UnitBuilder)
    (h : e.lowerOutput s element w b = .ok i b') :
    e.lower s element w b = .ok (.res i) b' ∨
      ∃ slot b₁, e.lower s element w b = .ok (.arg slot) b₁ ∧ i = b₁.statements.length ∧
        b' = b₁.pushed .port (.forward (.arg slot)) w := by
  unfold lowerOutput at h
  rcases bind_ok_iff.mp h with ⟨a, b₁, ha, h⟩
  -- A constant would have nothing to send, so the body failed.
  cases a with
  | res index =>
      rcases pure_ok_iff.mp h with ⟨rfl, rfl⟩
      exact Or.inl ha
  | const v => exact absurd (throw_ok_iff.mp h) id
  | arg slot =>
      rcases push_ok _ _ _ _ _ _ h with ⟨hi, hb⟩
      exact Or.inr ⟨slot, b₁, ha, hi, hb⟩

/-- A property that both ways to grow a builder keep is kept by lowering. An
    argument has the width of its channel, and a statement is always pushed under
    the piece of its operation, which computes something. -/
theorem lower_invariant (P : UnitBuilder → Prop)
    (harg : ∀ b id w, s.width id = .ok w → P b → P (b.addArg id w))
    (hpush : ∀ b op w, op.isForward = false → P b → P (b.pushed op.token op w))
    (e : Expr) (w : Nat) (a : Operand) (b b' : UnitBuilder)
    (h : e.lower s element w b = .ok a b') (hb : P b) : P b' := by
  induction e generalizing w a b b' with
  | const v =>
      rcases lower_const_ok s element v w a b b' h with ⟨_, rfl⟩
      exact hb
  | var id =>
      rcases arg_ok s id a b b' h with ⟨_, _, _, rfl⟩ | ⟨_, v, hv, _, rfl⟩
      · exact hb
      · exact harg b id v hv hb
  | cast arg v ih => exact ih (v.getD w) a b b' h hb
  | unary op arg ih =>
      rcases lower_unary_ok s element op arg w a b b' h with ⟨x, b₁, hx, _, _, rfl⟩
      exact hpush b₁ (.unary op x) w rfl (ih w x b b₁ hx hb)
  | binary op lhs rhs ihl ihr =>
      rcases lower_binary_ok s element op lhs rhs w a b b' h with
        ⟨ow, x, b₁, y, b₂, _, hx, hy, _, _, rfl⟩
      -- The statement is pushed last, on the builder that both sides have grown.
      exact hpush b₂ (.binary op x y) _ rfl (ihr ow y b₁ b₂ hy (ihl ow x b b₁ hx hb))
  | query c t e ihc iht ihe =>
      rcases lower_query_ok s element c t e w a b b' h with
        ⟨x, b₁, y, b₂, z, b₃, hx, hy, hz, _, _, _, rfl⟩
      exact hpush b₃ (.select x y z) w rfl
        (ihe w z b₂ b₃ hz (iht w y b₁ b₂ hy (ihc 1 x b b₁ hx hb)))

/-- The same for function bodies, which may also forward. -/
theorem lowerOutput_invariant (P : UnitBuilder → Prop)
    (harg : ∀ b id w, s.width id = .ok w → P b → P (b.addArg id w))
    (hpush : ∀ b op w, P b → P (b.pushed op.token op w))
    (e : Expr) (w i : Nat) (b b' : UnitBuilder)
    (h : e.lowerOutput s element w b = .ok i b') (hb : P b) : P b' := by
  -- A forward is only ever pushed here, which is why the first lemma may exclude it.
  have hcompute := lower_invariant s element P harg (fun b op w _ => hpush b op w)
  rcases lowerOutput_ok s element e w i b b' h with hres | ⟨slot, b₁, hslot, _, rfl⟩
  · exact hcompute e w _ b b' hres hb
  · exact hpush b₁ (.forward (.arg slot)) w (hcompute e w _ b b₁ hslot hb)

/-- Lowering an expression only appends to a builder. -/
theorem lower_extends (e : Expr) (w : Nat) (a : Operand) (b b' : UnitBuilder)
    (h : e.lower s element w b = .ok a b') : Extends b b' := by
  refine lower_invariant s element (Extends b) ?_ ?_ e w a b b' h (Extends.refl b)
  · intro b₁ id v _ hb
    exact hb.trans (extends_addArg b₁ id v)
  · intro b₁ op v _ hb
    exact hb.trans (extends_pushed b₁ op.token op v)

/-- Lowering keeps statements numbered by their positions. -/
theorem lowerOutput_numbered (e : Expr) (w i : Nat) (b b' : UnitBuilder)
    (h : e.lowerOutput s element w b = .ok i b') (hb : Numbered b) : Numbered b' :=
  lowerOutput_invariant s element Numbered (fun _ _ _ _ hb => hb)
    (fun b op v hb => numbered_pushed b op.token op v hb) e w i b b' h hb

/-- Lowering finds argument slots in the order in which reads are found. -/
theorem lower_args (e : Expr) (w : Nat) (a : Operand) (b b' : UnitBuilder)
    (h : e.lower s element w b = .ok a b') : b'.args = e.addReads b.args := by
  induction e generalizing w a b b' with
  | const v =>
      rcases lower_const_ok s element v w a b b' h with ⟨_, rfl⟩
      rfl
  | var id =>
      rcases arg_ok s id a b b' h with ⟨slot, hslot, _, hb⟩ | ⟨hnone, v, _, _, hb⟩
      -- A slot was found, so the channel is in the list and the read is not new.
      · have hmem : id ∈ b.args := by
          by_contra hc
          rw [List.idxOf?_eq_none_iff.mpr hc] at hslot
          cases hslot
        rw [hb, addReads, addRead, if_pos hmem]
      · rw [hb, addReads, addRead, if_neg (List.idxOf?_eq_none_iff.mp hnone), addArg]
  | cast arg v ih => exact ih (v.getD w) a b b' h
  | unary op arg ih =>
      rcases lower_unary_ok s element op arg w a b b' h with ⟨x, b₁, hx, _, _, rfl⟩
      rw [pushed_args, addReads]
      exact ih w x b b₁ hx
  | binary op lhs rhs ihl ihr =>
      rcases lower_binary_ok s element op lhs rhs w a b b' h with
        ⟨ow, x, b₁, y, b₂, _, hx, hy, _, _, rfl⟩
      rw [pushed_args, addReads, ihr ow y b₁ b₂ hy, ihl ow x b b₁ hx]
  | query c t e ihc iht ihe =>
      rcases lower_query_ok s element c t e w a b b' h with
        ⟨x, b₁, y, b₂, z, b₃, hx, hy, hz, _, _, _, rfl⟩
      rw [pushed_args, addReads, ihe w z b₂ b₃ hz, iht w y b₁ b₂ hy, ihc 1 x b b₁ hx]

/-- Lowering a function body finds argument slots in reading order. -/
theorem lowerOutput_args (e : Expr) (w i : Nat) (b b' : UnitBuilder)
    (h : e.lowerOutput s element w b = .ok i b') : b'.args = e.addReads b.args := by
  rcases lowerOutput_ok s element e w i b b' h with hres | ⟨slot, b₁, harg, _, rfl⟩
  · exact lower_args s element e w _ b b' hres
  · rw [pushed_args]
    exact lower_args s element e w _ b b₁ harg

end Expr

end DataflowCircuit
