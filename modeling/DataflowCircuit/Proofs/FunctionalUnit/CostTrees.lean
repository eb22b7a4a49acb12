import DataflowCircuit.Proofs.FunctionalUnit.Degenerate
import DataflowCircuit.Proofs.FunctionalUnit.SingleUse

/-!
# Trees of Results

The estimator is told about a unit in trees, one for every result. The trees are
written down while the statements are, from the trees of earlier results, so a
result number that is off by one would still give a tree, and a cost that looks
right. This file shows that the trees are those of the expressions.

What an expression should look like to the estimator is a function of the
expression and of the channels in the argument slots, `Expr.tree`: casts are
dropped, and operators stand under their source symbols. The slots are those of
the finished unit, which are not known yet while an expression is lowered. A
channel keeps its slot, so it is enough that the slots at hand are a prefix of
the final ones.

`Aligned` says of a builder which expression each of its results stands for. A
statement is the last operation of its expression, so the expressions behind the
statements are the operations of the function bodies in the order in which they
are computed, `Expr.computed`.

## Main definitions

* `Expr.tree`: What the estimator is shown of an expression.
* `Expr.operations`, `Expr.computed`: The subexpressions that have a result.
* `UnitBuilder.Aligned`: The expressions that results stand for.
* `UnitBuilder.Denotes`: An operand that stands for an expression.

## Theorems

* `aligned_pushed`: A statement adds the tree of its operation.
* `lower_aligned`, `lowerOutput_aligned`: Lowering adds the trees of its
  expression.
* `gathered_aligned`: So does gathering members, whose outputs send the results
  that stand for their bodies.
-/

namespace DataflowCircuit

namespace Expr

/-- What the estimator is shown of an expression over the argument slots
    `args`: a tree without casts. -/
def tree (args : List ChannelId) : Expr → CostNode
  | .const v => .const v
  | .var id => .input s!"x{args.idxOf id}"
  | .binary op lhs rhs => .binary op.symbol (lhs.tree args) (rhs.tree args)
  | .unary op arg => .unary op.sourceSymbol (arg.tree args)
  | .query c t e => .select (c.tree args) (t.tree args) (e.tree args)
  | .cast arg _ => arg.tree args

/-- The operations inside an expression in the order in which they are computed:
    what an operation reads comes before it. -/
def operations : Expr → List Expr
  | .const _ | .var _ => []
  | .binary op lhs rhs => lhs.operations ++ rhs.operations ++ [.binary op lhs rhs]
  | .unary op arg => arg.operations ++ [.unary op arg]
  | .query c t e => c.operations ++ t.operations ++ e.operations ++ [.query c t e]
  | .cast arg _ => arg.operations

/-- The subexpressions of a function body that have a result. A body without an
    operation is forwarded, which gives it one. -/
def computed (e : Expr) : List Expr :=
  if e.operations = [] then [e] else e.operations

/-- The operations inside an expression are among its parts. -/
theorem operations_subset (e : Expr) : e.operations ⊆ e.subexpressions := by
  induction e with
  | const v => exact List.nil_subset _
  | var id => exact List.nil_subset _
  | unary op arg ih =>
      intro x hx
      rcases List.mem_append.mp hx with hx | hx
      · exact List.mem_cons_of_mem _ (ih hx)
      · rw [List.mem_singleton.mp hx]
        exact List.mem_cons_self
  | binary op lhs rhs ihl ihr =>
      intro x hx
      simp only [operations, List.mem_append, List.mem_singleton] at hx
      simp only [subexpressions, List.mem_cons, List.mem_append]
      rcases hx with (hx | hx) | rfl
      · exact Or.inr (Or.inl (ihl hx))
      · exact Or.inr (Or.inr (ihr hx))
      · exact Or.inl rfl
  | query c t e ihc iht ihe =>
      intro x hx
      simp only [operations, List.mem_append, List.mem_singleton] at hx
      simp only [subexpressions, List.mem_cons, List.mem_append]
      rcases hx with ((hx | hx) | hx) | rfl
      · exact Or.inr (Or.inl (Or.inl (ihc hx)))
      · exact Or.inr (Or.inl (Or.inr (iht hx)))
      · exact Or.inr (Or.inr (ihe hx))
      · exact Or.inl rfl
  | cast arg w ih => exact fun x hx => List.mem_cons_of_mem _ (ih hx)

/-- Only parts of a function body have results. -/
theorem computed_subset (e : Expr) : e.computed ⊆ e.subexpressions := by
  unfold computed
  split
  · intro x hx
    rw [List.mem_singleton.mp hx]
    cases e <;> exact List.mem_cons_self
  · exact e.operations_subset

/-- Casts have no operation of their own. -/
theorem operations_peel (e : Expr) : e.peel.operations = e.operations := by
  induction e with
  | cast arg w ih => exact ih
  | _ => rfl

end Expr

namespace UnitBuilder

/-- An operand of a builder that stands for an expression, whatever results are
    still added. -/
def Denotes (b : UnitBuilder) (args : List ChannelId) (a : Operand) (e : Expr) : Prop :=
  ∀ g : CostGraph, b.graph.nodes <+: g.nodes → g.node a = e.tree args

/-- The results of a builder stand for the expressions `done`, if `args` are the
    argument slots of the finished unit. -/
structure Aligned (args : List ChannelId) (done : List Expr) (b : UnitBuilder) : Prop where
  nodes : b.graph.nodes = done.map (Expr.tree args)
  length : b.statements.length = done.length
  /-- What a statement computes from its operands is its expression. -/
  stated : ∀ (i : Nat) (st : Statement) (e : Expr), b.statements[i]? = some st →
    done[i]? = some e → ∀ g : CostGraph, b.graph.nodes <+: g.nodes → g.nodeOf st.op = e.tree args

variable {args : List ChannelId} {done more : List Expr} {b b' : UnitBuilder} {a : Operand}
  {e : Expr}

/-- An empty builder stands for nothing. -/
theorem aligned_empty (args : List ChannelId) : empty.Aligned args [] :=
  ⟨rfl, rfl, fun _ _ _ h => by cases h⟩

/-- No tree is ever changed. -/
theorem Aligned.kept (h : b.Aligned args done) (h' : b'.Aligned args (done ++ more)) :
    b.graph.nodes <+: b'.graph.nodes := by
  rw [h.nodes, h'.nodes, List.map_append]
  exact List.prefix_append _ _

/-- An operand still stands for its expression when the graph has grown. -/
theorem Denotes.later (h : b.Denotes args a e) (hkept : b.graph.nodes <+: b'.graph.nodes) :
    b'.Denotes args a e :=
  fun g hg => h g (hkept.trans hg)

/-- A statement whose operation stands for an expression adds its tree, and the
    new result stands for the expression. -/
theorem aligned_pushed (hb : b.Aligned args done) (t : NameToken) (op : Operation) (w : Nat)
    (hop : ∀ g : CostGraph, b.graph.nodes <+: g.nodes → g.nodeOf op = e.tree args) :
    (b.pushed t op w).Aligned args (done ++ [e]) ∧
      (b.pushed t op w).Denotes args (.res b.statements.length) e := by
  -- The estimator builds the same node again, from operands that it already has trees for.
  have hgraph : (b.pushed t op w).graph.nodes = b.graph.nodes ++ [e.tree args] := by
    rw [← hop b.graph List.prefix_rfl]
    rfl
  refine ⟨⟨?_, ?_, ?_⟩, ?_⟩
  · rw [hgraph, hb.nodes, List.map_append, List.map_singleton]
  · rw [pushed_statements, List.length_append, List.length_append, hb.length]
    rfl
  · intro i st x hst hx g hg
    rw [hgraph] at hg
    have hkept := (List.prefix_append _ _).trans hg
    -- An old statement keeps its tree because the graph only grows. The new one is covered by
    -- `hop`.
    rcases getElem?_pushed b t op w i st hst with hold | ⟨rfl, rfl⟩
    · have hlt := (List.getElem?_eq_some_iff.mp hold).1
      rw [List.getElem?_append_left (by rw [← hb.length]; exact hlt)] at hx
      exact hb.stated i st x hold hx g hkept
    · rw [hb.length, List.getElem?_concat_length, Option.some.injEq] at hx
      rw [← hx]
      exact hop g hkept
  · intro g hg
    -- The new result is the last node of this graph, and no later graph changes it.
    have hlast : (b.pushed t op w).graph.nodes[b.statements.length]? = some (e.tree args) := by
      have hlength : b.statements.length = b.graph.nodes.length := by
        rw [hb.nodes, List.length_map, hb.length]
      rw [hgraph, hlength, List.getElem?_concat_length]
    rw [CostGraph.node, getElem?_of_prefix _ _ hg _ _ hlast, Option.getD_some]

/-- The name of a unit does not matter. -/
theorem Aligned.rename (h : b.Aligned args done) (name : List NameToken) :
    ({ b with name } : UnitBuilder).Aligned args done :=
  ⟨h.nodes, h.length, h.stated⟩

end UnitBuilder

namespace Expr

open UnitBuilder

variable (s : Scope) (element : String) {args : List ChannelId}

/-- A channel stands for the input of its slot. -/
theorem denotes_arg (id : ChannelId) (slot : Nat) (b : UnitBuilder) (hargs : b.args <+: args)
    (hslot : b.args.idxOf? id = some slot) : b.Denotes args (.arg slot) (.var id) := by
  rcases hargs with ⟨more, rfl⟩
  have hlater : (b.args ++ more).idxOf? id = some slot := by
    rw [idxOf?_append, hslot]
    rfl
  intro g _
  rw [CostGraph.node, tree, List.idxOf_eq_getD_idxOf?, hlater, Option.getD_some]

/-- Lowering an expression adds the trees of its operations, and the operand that
    it hands back stands for the expression. -/
theorem lower_aligned (e : Expr) (w : Nat) (a : Operand) (b b' : UnitBuilder) (done : List Expr)
    (h : e.lower s element w b = .ok a b') (hargs : b'.args <+: args)
    (hb : b.Aligned args done) :
    b'.Aligned args (done ++ e.operations) ∧ b'.Denotes args a e := by
  induction e generalizing w a b b' done with
  | const v =>
      rcases lower_const_ok s element v w a b b' h with ⟨rfl, rfl⟩
      exact ⟨by rw [operations, List.append_nil]; exact hb, fun g _ => rfl⟩
  | var id =>
      rw [operations, List.append_nil]
      rcases arg_ok s id a b b' h with ⟨slot, hslot, rfl, rfl⟩ | ⟨hnone, v, _, rfl, rfl⟩
      · exact ⟨hb, denotes_arg id slot b' hargs hslot⟩
      · refine ⟨⟨hb.nodes, hb.length, hb.stated⟩, denotes_arg id _ _ hargs ?_⟩
        rw [addArg, idxOf?_append, hnone]
        simp [List.idxOf?]
  -- The estimator never sees a cast.
  | cast arg v ih => exact ih (v.getD w) a b b' done h hargs hb
  | unary op arg ih =>
      rcases lower_unary_ok s element op arg w a b b' h with ⟨x, b₁, hx, _, rfl, rfl⟩
      rcases ih w x b b₁ done hx hargs hb with ⟨hb₁, hxden⟩
      rw [operations, ← List.append_assoc]
      refine aligned_pushed hb₁ _ (.unary op x) w fun g hg => ?_
      rw [CostGraph.nodeOf, hxden g hg, tree]
  | binary op lhs rhs ihl ihr =>
      rcases lower_binary_ok s element op lhs rhs w a b b' h with
        ⟨ow, x, b₁, y, b₂, _, hx, hy, _, rfl, rfl⟩
      have hext := lower_extends s element rhs ow y b₁ b₂ hy
      rcases ihl ow x b b₁ done hx (hext.args.trans hargs) hb with ⟨hb₁, hxden⟩
      rcases ihr ow y b₁ b₂ _ hy hargs hb₁ with ⟨hb₂, hyden⟩
      rw [operations, ← List.append_assoc, ← List.append_assoc]
      refine aligned_pushed hb₂ _ (.binary op x y) _ fun g hg => ?_
      -- The left operand was handed out before the right side was lowered.
      rw [CostGraph.nodeOf, hxden.later (hb₁.kept hb₂) g hg, hyden g hg, tree]
  | query c t e ihc iht ihe =>
      rcases lower_query_ok s element c t e w a b b' h with
        ⟨x, b₁, y, b₂, z, b₃, hx, hy, hz, _, _, rfl, rfl⟩
      have hext₂ := lower_extends s element t w y b₁ b₂ hy
      have hext₃ := lower_extends s element e w z b₂ b₃ hz
      rcases ihc 1 x b b₁ done hx ((hext₂.trans hext₃).args.trans hargs) hb with ⟨hb₁, hxden⟩
      rcases iht w y b₁ b₂ _ hy (hext₃.args.trans hargs) hb₁ with ⟨hb₂, hyden⟩
      rcases ihe w z b₂ b₃ _ hz hargs hb₂ with ⟨hb₃, hzden⟩
      rw [operations, ← List.append_assoc, ← List.append_assoc, ← List.append_assoc]
      refine aligned_pushed hb₃ _ (.select x y z) _ fun g hg => ?_
      -- Condition and first branch have to survive what was lowered after them.
      have hkept := hb₂.kept hb₃
      rw [CostGraph.nodeOf, hxden.later ((hb₁.kept hb₂).trans hkept) g hg,
        hyden.later hkept g hg, hzden g hg, tree]

/-- What is handed back as a result has an operation behind it. -/
theorem operations_ne_nil (e : Expr) (w i : Nat) (b b' : UnitBuilder)
    (h : e.lower s element w b = .ok (.res i) b') : e.operations ≠ [] := by
  induction e generalizing w with
  | const v =>
      rcases lower_const_ok s element v w _ b b' h with ⟨hc, _⟩
      cases hc
  | var id =>
      rcases arg_ok s id _ b b' h with ⟨_, _, hc, _⟩ | ⟨_, _, _, hc, _⟩
      · cases hc
      · cases hc
  -- Only a cast passes on a result of its argument.
  | cast arg v ih => exact ih (v.getD w) h
  | _ => exact List.append_ne_nil_of_right_ne_nil _ (List.cons_ne_nil _ [])

/-- Lowering a function body adds the trees of what it computes, and the result
    that drives the output stands for the body. -/
theorem lowerOutput_aligned (e : Expr) (w i : Nat) (b b' : UnitBuilder) (done : List Expr)
    (h : e.lowerOutput s element w b = .ok i b') (hargs : b'.args <+: args)
    (hb : b.Aligned args done) :
    b'.Aligned args (done ++ e.computed) ∧ b'.Denotes args (.res i) e := by
  rcases lowerOutput_ok s element e w i b b' h with hres | ⟨slot, b₁, harg, rfl, rfl⟩
  · rw [computed, if_neg (operations_ne_nil s element e w i b b' hres)]
    exact lower_aligned s element e w (.res i) b b' done hres hargs hb
  · rcases peel_of_lower_arg s element e w slot b b₁ harg with ⟨id, hid, _⟩
    -- A body that is handed back as an argument is a channel under casts, so the forward is its
    -- only statement.
    have hnone : e.operations = [] := by
      rw [← operations_peel, hid]
      rfl
    rcases lower_aligned s element e w _ b b₁ done harg hargs hb with ⟨hb₁, hden⟩
    rw [hnone, List.append_nil] at hb₁
    rw [computed, if_pos hnone]
    exact aligned_pushed hb₁ .port (.forward (.arg slot)) w hden

end Expr

namespace Lowering

/-- The results of members stand for what the functions `funcs` compute, and the
    outputs send the results that stand for their bodies, at the widths of the
    channels behind them. -/
structure Members.Aligned (s : Scope) (args : List ChannelId)
    (funcs : List (Func ChannelId Expr)) (ms : Members) : Prop where
  builder : ms.builder.Aligned args (funcs.flatMap fun f => f.expr.computed)
  outputs : ∀ g : CostGraph, ms.builder.graph.nodes <+: g.nodes →
    ms.outputs.map (fun o => (o.width, g.node (.res o.result)))
      = funcs.map fun f => (f.output.elim 0 s.widthOf, f.expr.tree args)

/-- No member has been gathered yet. -/
theorem Members.aligned_empty (s : Scope) (args : List ChannelId) :
    Members.empty.Aligned s args [] :=
  ⟨UnitBuilder.aligned_empty args, fun _ _ => rfl⟩

/-- Gathering members only appends to the builder. -/
theorem gathered_extends {s : Scope} {element : String} {clustered : Bool} {position : Nat}
    {fs : List (Func ChannelId Expr)} {ms ms' : Members} {τ : Trace}
    (h : Gathered s element clustered position fs ms ms' τ) :
    ms.builder.Extends ms'.builder := by
  induction h with
  | done position ms => exact .refl _
  | step position f fs ms ms₁ ms' τ τ' hadd hrest ih =>
      cases hadd with
      | source value out hconst hout => exact ih
      | member out width result builder channel τ hconst hout hwidth hlower hfits =>
          have hbody := Expr.lowerOutput_invariant s element ms.builder.Extends
            (fun b id w _ hb => hb.trans (b.extends_addArg id w))
            (fun b op w hb => hb.trans (b.extends_pushed op.token op w))
            f.expr width result ms.builder builder hlower (.refl _)
          exact ⟨hbody.args.trans ih.args, hbody.argWidths.trans ih.argWidths,
            hbody.statements.trans ih.statements⟩

/-- Gathering members adds what the members compute that are not constant. -/
theorem gathered_aligned {s : Scope} {element : String} {clustered : Bool} {position : Nat}
    {fs : List (Func ChannelId Expr)} {ms ms' : Members} {τ : Trace}
    (h : Gathered s element clustered position fs ms ms' τ) {args : List ChannelId}
    {funcs : List (Func ChannelId Expr)} (hargs : ms'.builder.args <+: args)
    (hms : ms.Aligned s args funcs) :
    ms'.Aligned s args (funcs ++ fs.filter fun f => f.expr.asConst?.isNone) := by
  induction h generalizing funcs with
  | done position ms =>
      rw [List.filter_nil, List.append_nil]
      exact hms
  | step position f fs ms ms₁ ms' τ τ' hadd hrest ih =>
      cases hadd with
      | source value out hconst hout =>
          rw [List.filter_cons_of_neg (by rw [hconst]; exact Bool.false_ne_true)]
          exact ih hargs hms
      | member out width result builder channel τ hconst hout hwidth hlower hfits =>
          rw [List.filter_cons_of_pos (by rw [hconst]; rfl), List.append_cons]
          refine ih hargs ?_
          -- What the later members append to the argument slots does not move those of this one.
          have hslots : builder.args <+: args := (gathered_extends hrest).args.trans hargs
          rcases Expr.lowerOutput_aligned s element f.expr width result ms.builder builder _ hlower
            hslots hms.builder with ⟨hbuilder, hden⟩
          refine ⟨?_, fun g hg => ?_⟩
          · rw [List.flatMap_append, List.flatMap_singleton]
            exact hbuilder.rename _
          -- The outputs so far send old results, whose trees are kept.
          · have hkept := (hms.builder.kept hbuilder).trans hg
            rw [List.map_append, ← hms.outputs g hkept, List.map_singleton, hout, Option.elim_some,
              Scope.widthOf_of_ok s out width hwidth, ← hden g hg]
            exact List.map_append

end Lowering

end DataflowCircuit
