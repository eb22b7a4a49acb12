import DataflowCircuit.Proofs.FunctionalUnit.Builder
import Mathlib.Algebra.Group.Nat.Defs

/-!
# Meaning of Functional Units

A function body is a tree and a functional unit is a list of statements. This
file gives each of them a meaning of its own and shows that lowering keeps it.

The meaning of the operators is a parameter. Lowering never computes, so
nothing it does can depend on what an operator stands for, and every
interpretation is covered at once.

A tree is evaluated at a width, from the root down: casts replace the width, a
comparison evaluates its sides at the larger of the widths they have on their
own, and a condition is evaluated at one bit. Every operation reduces its
result to its width. Statements know nothing of trees: they are executed one
after another, each reads argument slots and earlier results, and its result is
reduced to the width it carries. Reading a slot or a result that does not exist
is a fault, so a run that ends has read nothing but what was there.

The two agree because of one invariant, kept by every step of the builder: the
operand handed back for a tree holds the value of the tree. Builders only grow,
and `runFrom_args_mono` and `value?_mono` say that growing changes no value
already computed. That is what carries an operand past the lowering of its
siblings, and a result past the lowering of the other members of its cluster.

## Main definitions

* `Interpretation`: What the operators compute.
* `Expr.ownWidth`: The width of an expression on its own, where every channel
  has one.
* `Expr.eval`, `Expr.evalBody`: The value of an expression and of a function
  body at a width.
* `Operand.value?`, `Operation.value?`: What a statement reads and computes.
* `runFrom`, `UnitBuilder.results?`: The results of statements in order.
* `Expr.lowerOutputs`: Function bodies lowered through one builder.

## Theorems

* `ownWidth_eq`: A computed natural width is the width of the expression.
* `value?_mono`, `runFrom_args_mono`, `runFrom_append`: Growing a unit changes
  no value.
* `lower_value`: The operand of an expression holds its value.
* `lowerOutput_value`: The result of a function body holds its value.
* `lowerOutputs_value`: The same for all members of a unit at its end.
* `unit_computes_bodies`: A unit computes its function bodies.
-/

namespace DataflowCircuit

/-- What the operators compute on numbers. -/
structure Interpretation where
  binary : BinOp → Nat → Nat → Nat
  unary : UnOp → Nat → Nat

namespace Expr

/-- The width an expression has on its own. A channel without a width counts
    as zero; no expression that is lowered has one. -/
def ownWidth (s : Scope) : Expr → Nat
  | .const v => bitsFor v
  | .var id => (s.width? id).getD 0
  | .binary op lhs rhs =>
    if op.isComparison then 1 else max (lhs.ownWidth s) (rhs.ownWidth s)
  | .unary _ arg => arg.ownWidth s
  | .query _ t e => max (t.ownWidth s) (e.ownWidth s)
  | .cast _ (some w) => w
  | .cast arg none => arg.ownWidth s

/-- The value of an expression computed at a width, where `env` gives the
    values of channels. -/
def eval (I : Interpretation) (env : ChannelId → Nat) (s : Scope) : Expr → Nat → Nat
  | .const v, _ => v
  | .var id, _ => env id
  | .cast e w, width => e.eval I env s (w.getD width)
  | .unary op e, width => I.unary op (e.eval I env s width) % 2 ^ width
  | .binary op lhs rhs, width =>
    if op.isComparison then
      let w := max (lhs.ownWidth s) (rhs.ownWidth s)
      I.binary op (lhs.eval I env s w) (rhs.eval I env s w) % 2 ^ 1
    else I.binary op (lhs.eval I env s width) (rhs.eval I env s width) % 2 ^ width
  | .query c t e, width =>
    (if c.eval I env s 1 ≠ 0 then t.eval I env s width else e.eval I env s width) % 2 ^ width

/-- The value of a function body for an output of a width. A body that is a
    bare channel is reduced to the width of the output. -/
def evalBody (I : Interpretation) (env : ChannelId → Nat) (s : Scope) (e : Expr) (width : Nat) :
    Nat :=
  match e.peel with
  | .var id => env id % 2 ^ width
  | _ => e.eval I env s width

/-- A computed natural width is the width of the expression on its own. -/
theorem ownWidth_eq (s : Scope) (e : Expr) (w : Nat) (h : e.naturalWidth s = .ok w) :
    e.ownWidth s = w := by
  induction e generalizing w with
  | const v =>
      rw [naturalWidth, Except.ok.injEq] at h
      rw [ownWidth, h]
  | var id =>
      rw [naturalWidth, Scope.width] at h
      cases hw : s.width? id with
      | none =>
          rw [hw] at h
          cases h
      | some v =>
          rw [hw, Except.ok.injEq] at h
          rw [ownWidth, hw, Option.getD_some, h]
  | binary op lhs rhs ihl ihr =>
      rw [naturalWidth] at h
      by_cases hop : op.isComparison = true
      · rw [if_pos hop, Except.ok.injEq] at h
        rw [ownWidth, if_pos hop, h]
      · rw [if_neg hop] at h
        rcases except_bind_ok_iff.mp h with ⟨l, hl, h⟩
        rcases except_bind_ok_iff.mp h with ⟨r, hr, h⟩
        rw [ownWidth, if_neg hop, ihl l hl, ihr r hr]
        exact except_pure_ok_iff.mp h
  | unary op arg ih => exact ih w h
  | query c t e _ iht ihe =>
      rcases except_bind_ok_iff.mp h with ⟨l, hl, h⟩
      rcases except_bind_ok_iff.mp h with ⟨r, hr, h⟩
      rw [ownWidth, iht l hl, ihe r hr]
      exact except_pure_ok_iff.mp h
  | cast arg v ih =>
      cases v with
      | none => exact ih w h
      | some v =>
          rw [naturalWidth, Except.ok.injEq] at h
          rw [ownWidth, h]

end Expr

section Execution

variable (I : Interpretation) (env : ChannelId → Nat)

/-- The value of an operand, where `args` are the channels of the argument
    slots and `results` the results so far. -/
def Operand.value? (args : List ChannelId) (results : List Nat) : Operand → Option Nat
  | .arg slot => args[slot]?.map env
  | .res index => results[index]?
  | .const v => some v

/-- The value that an operation computes, before it is reduced. -/
def Operation.value? (args : List ChannelId) (results : List Nat) : Operation → Option Nat
  | .binary op lhs rhs => do
    let l ← lhs.value? env args results
    let r ← rhs.value? env args results
    return I.binary op l r
  | .unary op arg => do
    let v ← arg.value? env args results
    return I.unary op v
  | .select cond then_ else_ => do
    let c ← cond.value? env args results
    let t ← then_.value? env args results
    let e ← else_.value? env args results
    return if c ≠ 0 then t else e
  | .forward arg => arg.value? env args results

/-- Execute statements in order after the given results. -/
def runFrom (args : List ChannelId) : List Statement → List Nat → Option (List Nat)
  | [], results => some results
  | st :: sts, results => do
    let v ← st.op.value? I env args results
    runFrom args sts (results ++ [v % 2 ^ st.width])

/-- The results of all statements of a unit, in order. -/
def UnitBuilder.results? (b : UnitBuilder) : Option (List Nat) :=
  runFrom I env b.args b.statements []

/-- What is at a position of a list is there in every list grown from it. -/
theorem getElem?_of_prefix {α : Type} (xs ys : List α) (h : xs <+: ys) (i : Nat) (x : α)
    (hx : xs[i]? = some x) : ys[i]? = some x := by
  rcases h with ⟨zs, rfl⟩
  rcases List.getElem?_eq_some_iff.mp hx with ⟨hlt, _⟩
  rw [List.getElem?_append_left hlt, hx]

/-- An operand keeps its value while arguments and results are appended. -/
theorem Operand.value?_mono (args args' : List ChannelId) (results results' : List Nat)
    (hargs : args <+: args') (hresults : results <+: results') (a : Operand) (v : Nat)
    (h : a.value? env args results = some v) : a.value? env args' results' = some v := by
  -- Only positions that are there already are looked at, so the end of a list is free to grow.
  cases a with
  | const c => exact h
  | res index => exact getElem?_of_prefix results results' hresults index v h
  | arg slot =>
      rcases Option.map_eq_some_iff.mp h with ⟨id, hid, hv⟩
      rw [value?, getElem?_of_prefix args args' hargs slot id hid, Option.map_some, hv]

/-- So does an operation. -/
theorem Operation.value?_mono (args args' : List ChannelId) (results results' : List Nat)
    (hargs : args <+: args') (hresults : results <+: results') (op : Operation) (v : Nat)
    (h : op.value? I env args results = some v) : op.value? I env args' results' = some v := by
  have hmono := Operand.value?_mono env args args' results results' hargs hresults
  cases op with
  | forward arg => exact hmono arg v h
  | unary op arg =>
      rcases Option.bind_eq_some_iff.mp h with ⟨x, hx, h⟩
      exact Option.bind_eq_some_iff.mpr ⟨x, hmono arg x hx, h⟩
  | binary op lhs rhs =>
      rcases Option.bind_eq_some_iff.mp h with ⟨x, hx, h⟩
      rcases Option.bind_eq_some_iff.mp h with ⟨y, hy, h⟩
      exact Option.bind_eq_some_iff.mpr ⟨x, hmono lhs x hx,
        Option.bind_eq_some_iff.mpr ⟨y, hmono rhs y hy, h⟩⟩
  | select cond then_ else_ =>
      rcases Option.bind_eq_some_iff.mp h with ⟨x, hx, h⟩
      rcases Option.bind_eq_some_iff.mp h with ⟨y, hy, h⟩
      rcases Option.bind_eq_some_iff.mp h with ⟨z, hz, h⟩
      exact Option.bind_eq_some_iff.mpr ⟨x, hmono cond x hx,
        Option.bind_eq_some_iff.mpr ⟨y, hmono then_ y hy,
          Option.bind_eq_some_iff.mpr ⟨z, hmono else_ z hz, h⟩⟩⟩

/-- Appending arguments changes no result. -/
theorem runFrom_args_mono (args args' : List ChannelId) (hargs : args <+: args')
    (sts : List Statement) (results out : List Nat)
    (h : runFrom I env args sts results = some out) :
    runFrom I env args' sts results = some out := by
  induction sts generalizing results with
  | nil => exact h
  | cons st sts ih =>
      rcases Option.bind_eq_some_iff.mp h with ⟨v, hv, h⟩
      have hv' := Operation.value?_mono I env args args' results results hargs
        List.prefix_rfl st.op v hv
      exact Option.bind_eq_some_iff.mpr ⟨v, hv', ih _ h⟩

/-- Executing a statement at the end appends its result. -/
theorem runFrom_append (args : List ChannelId) (sts : List Statement) (st : Statement)
    (results out : List Nat) (v : Nat) (h : runFrom I env args sts results = some out)
    (hv : st.op.value? I env args out = some v) :
    runFrom I env args (sts ++ [st]) results = some (out ++ [v % 2 ^ st.width]) := by
  -- By induction on the statements in front, with the results that they leave.
  induction sts generalizing results with
  | nil =>
      rw [runFrom, Option.some.injEq] at h
      subst h
      exact Option.bind_eq_some_iff.mpr ⟨v, hv, rfl⟩
  | cons st' sts ih =>
      rcases Option.bind_eq_some_iff.mp h with ⟨u, hu, h⟩
      exact Option.bind_eq_some_iff.mpr ⟨u, hu, ih _ h⟩

/-- Every statement has one result. -/
theorem runFrom_length (args : List ChannelId) (sts : List Statement) (results out : List Nat)
    (h : runFrom I env args sts results = some out) :
    out.length = results.length + sts.length := by
  induction sts generalizing results with
  | nil =>
      rw [runFrom, Option.some.injEq] at h
      rw [← h, List.length_nil, Nat.add_zero]
  | cons st sts ih =>
      rcases Option.bind_eq_some_iff.mp h with ⟨v, _, h⟩
      have hlen := ih _ h
      rw [List.length_append, List.length_singleton] at hlen
      rw [hlen, List.length_cons]
      omega

end Execution

/-- `Holds I env b out a v`: executing the builder gives the results `out`, and
    the operand `a` then holds `v`. -/
def Holds (I : Interpretation) (env : ChannelId → Nat) (b : UnitBuilder) (out : List Nat)
    (a : Operand) (v : Nat) : Prop :=
  b.results? I env = some out ∧ a.value? env b.args out = some v

section Lowering

open UnitBuilder

variable (I : Interpretation) (env : ChannelId → Nat)

/-- A pushed statement appends its reduced value, and its operand holds it. -/
theorem holds_pushed (b : UnitBuilder) (t : NameToken) (op : Operation) (w : Nat)
    (out : List Nat) (v : Nat) (hrun : b.results? I env = some out)
    (hv : op.value? I env b.args out = some v) :
    Holds I env (b.pushed t op w) (out ++ [v % 2 ^ w]) (.res b.statements.length)
      (v % 2 ^ w) := by
  have hlen : out.length = b.statements.length := by
    have h := runFrom_length I env b.args b.statements [] out hrun
    rw [List.length_nil, Nat.zero_add] at h
    exact h
  constructor
  · exact runFrom_append I env b.args b.statements ⟨b.statements.length, op, w⟩ [] out v hrun hv
  · rw [Operand.value?, ← hlen, List.getElem?_concat_length]

end Lowering

namespace Expr

open UnitBuilder

variable (I : Interpretation) (env : ChannelId → Nat) (s : Scope) (element : String)

/-- A binary operation computes at the widths that lowering chooses for its
    operands and its result. -/
theorem eval_binary (op : BinOp) (lhs rhs : Expr) (w ow : Nat)
    (how : operandWidth s op lhs rhs w = .ok ow) :
    (Expr.binary op lhs rhs).eval I env s w
      = I.binary op (lhs.eval I env s ow) (rhs.eval I env s ow) % 2 ^ resultWidth op w := by
  rw [eval, resultWidth]
  rw [operandWidth] at how
  -- The sides of a comparison are lowered at the wider of their own widths, those of any other
  -- operation at the width asked for.
  by_cases hc : op.isComparison = true
  · rw [if_pos hc] at how
    rcases except_bind_ok_iff.mp how with ⟨l, hl, how⟩
    rcases except_bind_ok_iff.mp how with ⟨r, hr, how⟩
    have hmax := except_pure_ok_iff.mp how
    rw [if_pos hc, if_pos hc, ownWidth_eq s lhs l hl, ownWidth_eq s rhs r hr, hmax]
  · rw [if_neg hc, Except.ok.injEq] at how
    rw [if_neg hc, if_neg hc, how]

/-- The operand that lowering hands back holds the value of the expression,
    and the results computed before are a prefix of those computed after. -/
theorem lower_value (e : Expr) (w : Nat) (a : Operand) (b b' : UnitBuilder) (out : List Nat)
    (h : e.lower s element w b = .ok a b') (hrun : b.results? I env = some out) :
    ∃ out', out <+: out' ∧ Holds I env b' out' a (e.eval I env s w) := by
  induction e generalizing w a b b' out with
  | const v =>
      rcases lower_const_ok s element v w a b b' h with ⟨rfl, rfl⟩
      exact ⟨out, List.prefix_rfl, hrun, rfl⟩
  | var id =>
      rcases arg_ok s id a b b' h with ⟨slot, hslot, rfl, rfl⟩ | ⟨_, v, _, rfl, rfl⟩
      · refine ⟨out, List.prefix_rfl, hrun, ?_⟩
        rcases List.idxOf?_eq_some_iff.mp hslot with ⟨hlt, heq, _⟩
        rw [Operand.value?, List.getElem?_eq_getElem hlt, Option.map_some, heq]
        rfl
      · -- The new slot changes no result computed before it was added.
        refine ⟨out, List.prefix_rfl,
          runFrom_args_mono I env b.args _ (List.prefix_append _ _) _ _ _ hrun, ?_⟩
        rw [Operand.value?, addArg, List.getElem?_concat_length]
        rfl
  | cast arg v ih => exact ih (v.getD w) a b b' out h hrun
  | unary op arg ih =>
      rcases lower_unary_ok s element op arg w a b b' h with ⟨x, b₁, hx, _, rfl, rfl⟩
      rcases ih w x b b₁ out hx hrun with ⟨out₁, hpre, hrun₁, hval⟩
      refine ⟨_, hpre.trans (List.prefix_append _ _),
        holds_pushed I env b₁ _ (.unary op x) w out₁ _ hrun₁ ?_⟩
      exact Option.bind_eq_some_iff.mpr ⟨_, hval, rfl⟩
  | binary op lhs rhs ihl ihr =>
      rcases lower_binary_ok s element op lhs rhs w a b b' h with
        ⟨ow, x, b₁, y, b₂, how, hx, hy, _, rfl, rfl⟩
      rcases ihl ow x b b₁ out hx hrun with ⟨out₁, hpre₁, hrun₁, hval₁⟩
      rcases ihr ow y b₁ b₂ out₁ hy hrun₁ with ⟨out₂, hpre₂, hrun₂, hval₂⟩
      -- The left operand outlives the lowering of the right side.
      have hval₁' := Operand.value?_mono env b₁.args b₂.args out₁ out₂
        (lower_extends s element rhs ow y b₁ b₂ hy).args hpre₂ x _ hval₁
      have hop : (Operation.binary op x y).value? I env b₂.args out₂
          = some (I.binary op (lhs.eval I env s ow) (rhs.eval I env s ow)) :=
        Option.bind_eq_some_iff.mpr ⟨_, hval₁', Option.bind_eq_some_iff.mpr ⟨_, hval₂, rfl⟩⟩
      have hheld := holds_pushed I env b₂ (.binary op x.mnemonic y.mnemonic (x = y))
        (.binary op x y) (resultWidth op w) out₂ _ hrun₂ hop
      rw [eval_binary I env s op lhs rhs w ow how]
      exact ⟨_, (hpre₁.trans hpre₂).trans (List.prefix_append _ _), hheld⟩
  | query c t e ihc iht ihe =>
      rcases lower_query_ok s element c t e w a b b' h with
        ⟨x, b₁, y, b₂, z, b₃, hx, hy, hz, _, _, rfl, rfl⟩
      rcases ihc 1 x b b₁ out hx hrun with ⟨out₁, hpre₁, hrun₁, hval₁⟩
      rcases iht w y b₁ b₂ out₁ hy hrun₁ with ⟨out₂, hpre₂, hrun₂, hval₂⟩
      rcases ihe w z b₂ b₃ out₂ hz hrun₂ with ⟨out₃, hpre₃, hrun₃, hval₃⟩
      have hargs₂ := (lower_extends s element t w y b₁ b₂ hy).args
      have hargs₃ := (lower_extends s element e w z b₂ b₃ hz).args
      -- The condition outlives both branches, and the first branch the second.
      have hval₁' := Operand.value?_mono env b₁.args b₃.args out₁ out₃
        (hargs₂.trans hargs₃) (hpre₂.trans hpre₃) x _ hval₁
      have hval₂' := Operand.value?_mono env b₂.args b₃.args out₂ out₃ hargs₃ hpre₃ y _ hval₂
      refine ⟨_, ((hpre₁.trans hpre₂).trans hpre₃).trans (List.prefix_append _ _),
        holds_pushed I env b₃ _ (.select x y z) w out₃ _ hrun₃ ?_⟩
      exact Option.bind_eq_some_iff.mpr ⟨_, hval₁', Option.bind_eq_some_iff.mpr
        ⟨_, hval₂', Option.bind_eq_some_iff.mpr ⟨_, hval₃, rfl⟩⟩⟩

/-- Only a bare channel, under any casts, is lowered to an argument, and only the
    slot of the channel is asked for. -/
theorem peel_of_lower_arg (e : Expr) (w slot : Nat) (b b' : UnitBuilder)
    (h : e.lower s element w b = .ok (.arg slot) b') :
    ∃ id, e.peel = .var id ∧ arg s id b = .ok (.arg slot) b' := by
  induction e generalizing w with
  | const v =>
      rcases lower_const_ok s element v w _ b b' h with ⟨hc, _⟩
      cases hc
  | var id => exact ⟨id, rfl, h⟩
  -- Every operation hands back a result, so only casts are left above the channel.
  | cast arg v ih => exact ih (v.getD w) h
  | unary op arg _ =>
      rcases lower_unary_ok s element op arg w _ b b' h with ⟨_, _, _, _, hc, _⟩
      cases hc
  | binary op lhs rhs _ _ =>
      rcases lower_binary_ok s element op lhs rhs w _ b b' h with
        ⟨_, _, _, _, _, _, _, _, _, hc, _⟩
      cases hc
  | query c t e _ _ _ =>
      rcases lower_query_ok s element c t e w _ b b' h with
        ⟨_, _, _, _, _, _, _, _, _, _, _, hc, _⟩
      cases hc

/-- A bare channel is never lowered to a result. -/
theorem peel_of_lower_res (e : Expr) (w i : Nat) (b b' : UnitBuilder)
    (h : e.lower s element w b = .ok (.res i) b') (id : ChannelId) : e.peel ≠ .var id := by
  induction e generalizing w with
  | const v =>
      rcases lower_const_ok s element v w _ b b' h with ⟨hc, _⟩
      cases hc
  | var id =>
      rcases arg_ok s id _ b b' h with ⟨_, _, hc, _⟩ | ⟨_, _, _, hc, _⟩
      · cases hc
      · cases hc
  | cast arg v ih => exact ih (v.getD w) h
  | unary op arg _ => exact fun hc => by cases hc
  | binary op lhs rhs _ _ => exact fun hc => by cases hc
  | query c t e _ _ _ => exact fun hc => by cases hc

/-- Casts around a bare channel do not change its value. -/
theorem eval_of_peel_var (e : Expr) (w : Nat) (id : ChannelId) (h : e.peel = .var id) :
    e.eval I env s w = env id := by
  induction e generalizing w with
  | var id' =>
      cases h
      rfl
  | cast arg v ih => exact ih (v.getD w) h
  | const v => cases h
  | unary op arg _ => cases h
  | binary op lhs rhs _ _ => cases h
  | query c t e _ _ _ => cases h

/-- The result that drives an output holds the value of the function body. -/
theorem lowerOutput_value (e : Expr) (w i : Nat) (b b' : UnitBuilder) (out : List Nat)
    (h : e.lowerOutput s element w b = .ok i b') (hrun : b.results? I env = some out) :
    ∃ out', out <+: out' ∧ b'.results? I env = some out' ∧
      out'[i]? = some (e.evalBody I env s w) := by
  rcases lowerOutput_ok s element e w i b b' h with hres | ⟨slot, b₁, harg, rfl, rfl⟩
  · rcases lower_value I env s element e w _ b b' out hres hrun with ⟨out', hpre, hrun', hval⟩
    refine ⟨out', hpre, hrun', ?_⟩
    -- A body with a result is no bare channel, so nothing is reduced a second time.
    have hbody : e.evalBody I env s w = e.eval I env s w := by
      unfold evalBody
      split
      · rename_i id hid
        exact absurd hid (peel_of_lower_res s element e w i b b' hres id)
      · rfl
    rw [hbody]
    exact hval
  · rcases lower_value I env s element e w _ b b₁ out harg hrun with ⟨out₁, hpre, hrun₁, hval⟩
    rcases peel_of_lower_arg s element e w slot b b₁ harg with ⟨id, hid, _⟩
    have hheld := holds_pushed I env b₁ .port (.forward (.arg slot)) w out₁ _ hrun₁ hval
    -- The forward cuts the channel to the width of the output, which its expression alone does
    -- not.
    have hbody : e.evalBody I env s w = e.eval I env s w % 2 ^ w := by
      rw [evalBody, hid, eval_of_peel_var I env s e w id hid]
    rw [hbody]
    exact ⟨_, hpre.trans (List.prefix_append _ _), hheld.1, hheld.2⟩

/-- Lower function bodies one after another, each at the width of its output,
    and return the numbers of the results that drive the outputs. -/
def lowerOutputs : List (Expr × Nat) → Step (List Nat)
  | [] => return []
  | (e, w) :: rest => do
    let i ← e.lowerOutput s element w
    return i :: (← lowerOutputs rest)

/-- All outputs of a unit hold the values of their bodies once the whole unit
    is built, whatever was in the builder before. -/
theorem lowerOutputs_value (bodies : List (Expr × Nat)) (indices : List Nat)
    (b b' : UnitBuilder) (out : List Nat)
    (h : lowerOutputs s element bodies b = .ok indices b')
    (hrun : b.results? I env = some out) :
    ∃ out', out <+: out' ∧ b'.results? I env = some out' ∧
      indices.map (out'[·]?) = bodies.map fun (e, w) => some (e.evalBody I env s w) := by
  induction bodies generalizing indices b out with
  | nil =>
      rcases pure_ok_iff.mp h with ⟨rfl, rfl⟩
      exact ⟨out, List.prefix_rfl, hrun, rfl⟩
  | cons body rest ih =>
      rcases body with ⟨e, w⟩
      rcases bind_ok_iff.mp h with ⟨i, b₁, hi, h⟩
      rcases bind_ok_iff.mp h with ⟨is, b₂, his, h⟩
      rcases pure_ok_iff.mp h with ⟨rfl, rfl⟩
      rcases lowerOutput_value I env s element e w i b b₁ out hi hrun with
        ⟨out₁, hpre₁, hrun₁, hval₁⟩
      -- The result of the first body stays where it was when the others append theirs.
      rcases ih is b₁ out₁ his hrun₁ with ⟨out₂, hpre₂, hrun₂, hvals⟩
      refine ⟨out₂, hpre₁.trans hpre₂, hrun₂, ?_⟩
      rw [List.map_cons, List.map_cons, hvals,
        getElem?_of_prefix out₁ out₂ hpre₂ i _ hval₁]

/-- Lowering function bodies keeps statements numbered by their positions. -/
theorem lowerOutputs_numbered (bodies : List (Expr × Nat)) (indices : List Nat)
    (b b' : UnitBuilder) (h : lowerOutputs s element bodies b = .ok indices b')
    (hb : Numbered b) : Numbered b' := by
  induction bodies generalizing indices b with
  | nil =>
      rcases pure_ok_iff.mp h with ⟨_, rfl⟩
      exact hb
  | cons body rest ih =>
      rcases bind_ok_iff.mp h with ⟨i, b₁, hi, h⟩
      rcases bind_ok_iff.mp h with ⟨is, b₂, his, h⟩
      rcases pure_ok_iff.mp h with ⟨_, rfl⟩
      exact ih is b₁ his (lowerOutput_numbered s element body.1 body.2 i b b₁ hi hb)

/-- A functional unit computes its function bodies: executing its statements in
    the order of their numbers gives the result behind every output the value
    of the body it was lowered from. -/
theorem unit_computes_bodies (bodies : List (Expr × Nat)) (indices : List Nat)
    (b : UnitBuilder) (h : lowerOutputs s element bodies .empty = .ok indices b) :
    (∀ (k : Nat) (st : Statement), b.statements[k]? = some st → st.index = k) ∧
      ∃ results, b.results? I env = some results ∧ results.length = b.statements.length ∧
        indices.map (results[·]?) = bodies.map fun (e, w) => some (e.evalBody I env s w) := by
  refine ⟨lowerOutputs_numbered s element bodies indices .empty b h numbered_empty, ?_⟩
  -- An empty builder executes to no results.
  rcases lowerOutputs_value I env s element bodies indices .empty b [] h rfl with
    ⟨results, _, hrun, hvals⟩
  have hlen := runFrom_length I env b.args b.statements [] results hrun
  rw [List.length_nil, Nat.zero_add] at hlen
  exact ⟨results, hrun, hlen, hvals⟩

/-- A conditional with a cast in one branch and a forwarded channel share a
    unit: at the values 201, 1000 and 1 of the channels its outputs send 8, the
    negated second channel at four bits, and 9, the first channel at four
    bits. -/
theorem unit_computes_clustered_bodies :
    let I : Interpretation :=
      ⟨fun op x y => if op = .lt then (if x < y then 1 else 0) else x + y, fun _ x => 2 ^ 32 - x⟩
    let s : Scope := ⟨[⟨"a", .int 8, .port .input, 0⟩, ⟨"b", .int 16, .port .input, 1⟩,
      ⟨"g", .bool, .port .input, 2⟩]⟩
    let bodies : List (Expr × Nat) :=
      [(.query (.binary .lt (.binary .add (.var 0) (.const 1)) (.var 1))
          (.cast (.unary .neg (.var 1)) (some 4)) (.var 2), 8),
        (.cast (.var 0) none, 4)]
    ∃ b, lowerOutputs s "" bodies .empty = .ok [3, 4] b ∧
      ∃ results, b.results? I ([201, 1000, 1].getD · 0) = some results ∧
        [3, 4].map (results[·]?) = [some 8, some 9] := by
  intro I s bodies
  refine ⟨_, rfl, ?_⟩
  rcases unit_computes_bodies I ([201, 1000, 1].getD · 0) s "" bodies [3, 4] _ rfl with
    ⟨_, results, hrun, _, hvals⟩
  exact ⟨results, hrun, hvals.trans (by decide)⟩

end Expr

end DataflowCircuit
