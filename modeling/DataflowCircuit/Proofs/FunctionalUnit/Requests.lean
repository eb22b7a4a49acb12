import DataflowCircuit.Compile.Command
import DataflowCircuit.Proofs.Emit.Fitting
import DataflowCircuit.Proofs.FunctionalUnit.CostTrees

/-!
# What the Estimator is Asked

The cost of a unit is estimated from a request, and the request is written from
the unit and the trees of its results. Neither mentions the functions that the
unit was made for. This file shows that the request describes these functions:
`FunctionalUnit.described` writes a request from the functions themselves, and
it is the request that lowering makes.

A request lists every result once, as an output or as a hidden assignment. That
is due to the results being read once: a result that is sent is not read, so no
two outputs send the same one, and what is not sent is hidden.

A look at a tree that is not there would not fail but stand for zero. So it has
to be said apart that none happens: when a statement is pushed, the trees of the
results that it reads are there, and when the request is written, there is a
tree for every statement.

## Main definitions

* `FunctionalUnit.described`: The request that describes functions.
* `Component.unit?`: The unit of a component.

## Theorems

* `request_eq_described`: The request of aligned members describes them.
* `hidden_add_outputs`: Hidden assignments and outputs are the statements.
* `Asked.requests`: A run of questions makes requests for its units only.
* `requests_describe_functions`: What the estimator is asked when a function or a
  cluster is lowered.
-/

namespace DataflowCircuit

/-- The request that describes functions and the unit made for them: an input
    for every channel that is read, an output for every function that is not
    constant, and a hidden assignment for every other statement, with the
    subexpression that is computed in its place. -/
def FunctionalUnit.described (fu : FunctionalUnit) (s : Scope)
    (funcs : List (Func ChannelId Expr)) : EstimateRequest :=
  let args := readsOfFuncs funcs
  let members := funcs.filter fun f => f.expr.asConst?.isNone
  let computed := members.flatMap fun f => f.expr.computed
  { name := fu.name
    inputs := args.zipIdx.map fun (id, i) => ⟨s!"x{i}", s.widthOf id⟩
    hidden := ((fu.statements.zip computed).filter fun (st, _) =>
        fu.outputs.all (·.result ≠ st.index)).map fun (st, e) =>
      ⟨s!"res{st.index}", st.width, e.tree args⟩
    outputs := members.zipIdx.map fun (f, i) =>
      ⟨s!"out{i}", f.output.elim 0 s.widthOf, f.expr.tree args⟩ }

section Description

open Lowering

variable {s : Scope} {element : String} {clustered : Bool} {funcs : List (Func ChannelId Expr)}
  {ms : Members} {τ : Trace}

/-- Pairs of two lists of the same length, of which the first part is checked. -/
theorem filter_zip_fst {α β : Type} (p : α → Bool) (xs : List α) (ys : List β)
    (h : xs.length ≤ ys.length) :
    ((xs.zip ys).filter fun pair => p pair.1).map Prod.fst = xs.filter p := by
  conv_rhs => rw [← List.map_fst_zip h, List.filter_map]
  rfl

/-- The request of members that were gathered from nothing describes them. -/
theorem request_eq_described
    (h : Gathered s element clustered 0 funcs .empty ms τ) (name : String)
    (buffers : List BufferedOutput) :
    ms.builder.graph.request { ms.unit with name, buffers }
      = ({ ms.unit with name, buffers } : FunctionalUnit).described s funcs := by
  have hargs : ms.builder.args = readsOfFuncs funcs := gathered_args h
  -- The trees of the builder are those of what the members compute, in order.
  have haligned := gathered_aligned h List.prefix_rfl (Members.aligned_empty s ms.builder.args)
  rw [List.nil_append] at haligned
  have hmeasured := (gatherUnit_measured s element clustered 0 funcs .empty ms.builder [] ms.outputs
    (gathered_unit h) (UnitBuilder.measured_empty s)).1
  unfold CostGraph.request FunctionalUnit.described
  congr 1
  · change ms.builder.argWidths.zipIdx.map _ = _
    rw [hmeasured.args, hargs, List.zipIdx_map, List.map_map]
    rfl
  · change (ms.builder.statements.filter _).map _ = ((ms.builder.statements.zip _).filter _).map _
    rw [← filter_zip_fst _ ms.builder.statements _ (Nat.le_of_eq haligned.builder.length),
      List.map_map]
    refine List.map_congr_left fun pair hpair => ?_
    rcases pair with ⟨st, e⟩
    -- The tree of a result is that of the expression at its position.
    rcases List.getElem?_of_mem (List.mem_of_mem_filter hpair) with ⟨i, hi⟩
    rcases List.getElem?_zip_eq_some.mp hi with ⟨hst, he⟩
    have hnode : ms.builder.graph.node (.res st.index) = e.tree ms.builder.args := by
      rw [hmeasured.numbered i st hst, CostGraph.node, haligned.builder.nodes, List.getElem?_map,
        he, Option.map_some, Option.getD_some]
    rw [Function.comp_apply, hnode, hargs]
  · change ms.outputs.zipIdx.map _ = _
    have houtputs := haligned.outputs ms.builder.graph List.prefix_rfl
    -- Numbering the outputs and looking at their parts may be done in either order.
    have hsplit : ∀ os : List UnitOutput, os.zipIdx.map (fun sent =>
        (⟨s!"out{sent.2}", sent.1.width, ms.builder.graph.node (.res sent.1.result)⟩ : Assignment))
        = (os.map fun o => (o.width, ms.builder.graph.node (.res o.result))).zipIdx.map
            fun driven => ⟨s!"out{driven.2}", driven.1.1, driven.1.2⟩ := by
      intro os
      rw [List.zipIdx_map, List.map_map]
      rfl
    refine (hsplit ms.outputs).trans ?_
    rw [houtputs, List.zipIdx_map, List.map_map, hargs]
    rfl

/-- The numbers of statements that some output sends are those of the outputs, if
    no result is sent twice. -/
theorem length_filter_sent (b : UnitBuilder) (hnumbered : b.Numbered) (results : List Nat)
    (hnodup : results.Nodup) (hlt : ∀ i ∈ results, i < b.statements.length) :
    (b.statements.filter fun st => decide (st.index ∈ results)).length = results.length := by
  have hindices : b.statements.map Statement.index = List.range b.statements.length := by
    refine List.ext_getElem? fun i => ?_
    rw [List.getElem?_map]
    cases hst : b.statements[i]? with
    | none =>
        have hge := List.getElem?_eq_none_iff.mp hst
        rw [Option.map_none, List.getElem?_eq_none (by rw [List.length_range]; exact hge)]
    | some st =>
        have hlt := (List.getElem?_eq_some_iff.mp hst).1
        rw [Option.map_some, hnumbered i st hst, List.getElem?_range hlt]
  -- The sent results are in another order than the statements, which does not matter for their
  -- number.
  have hperm : ((List.range b.statements.length).filter fun i => decide (i ∈ results)).Perm
      results := by
    refine (List.perm_ext_iff_of_nodup (List.nodup_range.filter _) hnodup).mpr fun i => ?_
    rw [List.mem_filter, List.mem_range, decide_eq_true_iff]
    exact ⟨fun h => h.2, fun h => ⟨hlt i h, h⟩⟩
  rw [← hperm.length_eq, ← hindices, List.filter_map, List.length_map]
  rfl

/-- No result is sent twice. -/
theorem nodup_sent (hbalanced : ms.builder.Balanced ms.sent) :
    (ms.outputs.map UnitOutput.result).Nodup := by
  have hsent : ms.sent.Nodup := by
    refine List.nodup_iff_count_le_one.mpr fun a => ?_
    by_cases ha : a ∈ ms.sent
    · rcases List.mem_map.mp ha with ⟨o, _, rfl⟩
      -- A result sent twice would be used twice.
      have honce := hbalanced.once o.result (hbalanced.waiting _ ha)
      rw [List.count_append] at honce
      omega
    · rw [List.count_eq_zero_of_not_mem ha]
      exact Nat.zero_le 1
  refine List.Nodup.of_map Operand.res ?_
  rw [List.map_map]
  exact hsent

/-- Hidden assignments and outputs together are as many as the statements. -/
theorem hidden_add_outputs (h : Gathered s element clustered 0 funcs .empty ms τ)
    (name : String) (buffers : List BufferedOutput) :
    let request := ms.builder.graph.request { ms.unit with name, buffers }
    request.hidden.length + request.outputs.length = ms.builder.statements.length := by
  intro request
  have hbalanced := gathered_balanced h UnitBuilder.balanced_empty
  have hnumbered := (gatherUnit_measured s element clustered 0 funcs .empty ms.builder []
    ms.outputs (gathered_unit h) (UnitBuilder.measured_empty s)).1.numbered
  have hlt : ∀ i ∈ ms.outputs.map UnitOutput.result, i < ms.builder.statements.length :=
    List.forall_mem_map.mpr fun o ho => hbalanced.waiting _ (List.mem_map_of_mem ho)
  have hsent := length_filter_sent ms.builder hnumbered _ (nodup_sent hbalanced) hlt
  -- A statement is hidden if no output sends it, and sent otherwise.
  have hhidden : request.hidden.length = (ms.builder.statements.filter fun st =>
      !decide (st.index ∈ ms.outputs.map UnitOutput.result)).length := by
    change (List.map _ (ms.builder.statements.filter _)).length = _
    rw [List.length_map]
    refine congrArg List.length (List.filter_congr fun st _ => ?_)
    rw [Bool.eq_iff_iff]
    simp [Members.unit]
  have houtputs : request.outputs.length = (ms.outputs.map UnitOutput.result).length := by
    change (List.map _ ms.outputs.zipIdx).length = _
    rw [List.length_map, List.length_zipIdx, List.length_map]
  rw [hhidden, houtputs, ← hsent, Nat.add_comm, ← List.length_eq_length_filter_add]

end Description

section Questions

/-- The unit of a component, if it is one. -/
def Component.unit? : Component → Option FunctionalUnit
  | .unit fu => some fu
  | _ => none

/-- Finding the cost of a unit makes no request, or that for the unit. -/
theorem unitCost_requests (fu : FunctionalUnit) (graph : CostGraph) (cost : Option Cost)
    (s s' : Session) (h : Session.unitCost fu graph s = .ok cost s') :
    s'.requests = s.requests ∨ s'.requests = s.requests ++ [graph.request fu] := by
  have hpriced : s'.requests = s.requests ∨ ∃ est, s.metrics.lookup fu.key = none ∧
      fu.isForward = false ∧ s.estimator = some est := by
    cases unitCost_ok fu graph cost s s' h with
    | known c hknown => exact Or.inl rfl
    | absent warnings habsent hwhy => exact Or.inl rfl
    | estimated c est requests files warnings habsent hcomputes hest =>
        exact Or.inr ⟨est, habsent, hcomputes, hest⟩
  refine hpriced.imp_right ?_
  rintro ⟨est, habsent, hcomputes, hest⟩
  rw [Session.unitCost, get_bind_apply, habsent] at h
  simp only [hcomputes, hest, Bool.false_eq_true, if_false] at h
  rcases bind_ok_iff.mp h with ⟨c, s₁, hsynth, h₁⟩
  rcases pure_ok_iff.mp h₁ with ⟨_, rfl⟩
  -- The estimator is asked once for a unit without a price.
  rcases synthesize_ok est fu graph c s s₁ habsent hsynth with
    ⟨_, _, _, files, _, _, _, _, _, _, rfl⟩
  rfl

/-- A run of questions makes requests for its units only, in order. -/
theorem Asked.requests {s s' : Session} {sites : List (Component × Option Cost)}
    (h : Asked s sites s') : ∃ asked : List FunctionalUnit,
      asked.Sublist ((sites.map Prod.fst).filterMap Component.unit?) ∧
        s'.requests = s.requests ++ asked.map fun fu => fu.graph.request fu := by
  induction h with
  | done s s' hsame =>
      refine ⟨[], List.Sublist.slnil, ?_⟩
      rw [List.map_nil, List.append_nil]
      exact congrArg Pricing.requests hsame
  | ask s t t' s' c cost rest hsame hask hrest ih =>
      rcases ih with ⟨asked, hsub, hrequests⟩
      have hstart : t.requests = s.requests := congrArg Pricing.requests hsame
      rw [List.map_cons, hrequests]
      cases c.ask_ok cost t t' hask with
      | found cost hknown =>
          rw [hstart]
          refine ⟨asked, hsub.trans ?_, rfl⟩
          rw [List.filterMap_cons]
          split
          · exact List.Sublist.refl _
          · exact List.sublist_cons_self _ _
      | unit fu _ _ hunit hpriced =>
          subst hunit
          change ∃ asked', List.Sublist asked' (fu :: _) ∧ _
          -- Only the cost of a unit can make a request, and then one.
          rcases unitCost_requests fu fu.graph cost t t' hask with hnone | hone
          · rw [hnone, hstart]
            exact ⟨asked, hsub.cons _, rfl⟩
          · rw [hone, hstart]
            exact ⟨fu :: asked, hsub.cons_cons _, by rw [List.append_assoc]; rfl⟩

end Questions

section Elements

open Lowering

/-- The units among the components of the call sites of an element: its own, if
    it has one. -/
theorem units_of_trace {s : Scope} {observed : ChannelId → Bool} {el : Element ChannelId Expr}
    {τ : Trace} (h : ElementTrace s observed el τ) (T : Bodies) :
    (τ.sites.map fun site => site.component.under T).filterMap Component.unit?
      = (el.unit? s).toList.map (FunctionalUnit.under T) := by
  rw [← h.units, List.filterMap_map, List.map_filterMap]
  refine List.filterMap_congr fun site _ => ?_
  rw [Function.comp_apply]
  unfold Site.unit?
  cases site.component <;> rfl

/-- The estimator is asked about the functions that were written. Whenever a
    function or a cluster is lowered, the request for its unit, under whatever
    name, describes its functions: inputs are the channels that are read with
    their widths, outputs the bodies of the functions that are not constant, in
    order, over the inputs and at the widths of the channels behind them, and
    hidden are the other statements with the subexpressions that they compute.
    Every statement computes the part of a body that stands at its position from
    the trees of its operands. No tree is missed: there is one for every
    statement, a statement reads the results of earlier statements only, and an
    output sends the result of a statement. If lowering asks the estimator at
    all, it does so once and with this request. -/
theorem requests_describe_functions (sub : Subject) (el : Element ChannelId Expr)
    (clustered : Bool) (funcs : List (Func ChannelId Expr)) (u : Unit) (l l' : Lowering)
    (hmembers : el.members? = some (clustered, funcs)) (h : lowerElement sub el l = .ok u l') :
    ∃ (sources : List (ChannelId × String)) (ms : Members) (l₁ l₂ : Lowering),
      resolveReads el l = .ok sources l₁ ∧
      addMembers sub (el.print sub.scope) clustered 0 funcs .empty l₁ = .ok ms l₂ ∧
      (∀ (name : String) (buffers : List BufferedOutput),
        let fu : FunctionalUnit := { ms.unit with name, buffers }
        let request := ms.builder.graph.request fu
        request = fu.described sub.scope funcs ∧
          request.hidden.length + request.outputs.length = fu.statements.length) ∧
      (∀ (i : Nat) (st : Statement), ms.builder.statements[i]? = some st →
        st.index = i ∧ (∀ k, .res k ∈ st.op.operands → k < i) ∧
        ∃ f ∈ funcs, ∃ e ∈ f.expr.subexpressions,
          ((funcs.filter fun f => f.expr.asConst?.isNone).flatMap fun f => f.expr.computed)[i]?
            = some e ∧
          ms.builder.graph.nodeOf st.op = e.tree (readsOfFuncs funcs)) ∧
      ms.builder.graph = ms.unit.graph ∧
      ms.builder.graph.nodes.length = ms.builder.statements.length ∧
      (∀ o ∈ ms.outputs, o.result < ms.builder.statements.length) ∧
      (l'.session.requests = l.session.requests ∨ ∃ name, l'.session.requests
        = l.session.requests ++ [ms.builder.graph.request { ms.unit with name }]) := by
  -- A function and a cluster are lowered by the same code.
  have hrun : lowerFuncs sub el clustered funcs l = .ok u l' := by
    cases el with
    | func f =>
        cases hmembers
        exact h
    | cluster fs =>
        cases hmembers
        exact h
    | _ => cases hmembers
  rcases bind_ok_iff.mp hrun with ⟨sources, l₁, hreads, hgathering⟩
  rcases bind_ok_iff.mp hgathering with ⟨ms, l₂, hms, _⟩
  rcases gathered_of_addMembers sub _ clustered 0 funcs .empty ms l₁ l₂ hms with ⟨τ, hgather⟩
  have hargs : ms.builder.args = readsOfFuncs funcs := gathered_args hgather
  have haligned := (gathered_aligned hgather List.prefix_rfl
    (Members.aligned_empty sub.scope ms.builder.args)).builder
  rw [List.nil_append] at haligned
  have hbalanced := gathered_balanced hgather UnitBuilder.balanced_empty
  have hgraph := (spells_gatherUnit _ _ clustered 0 funcs .empty _ [] _ (gathered_unit hgather)
    (UnitBuilder.spells_empty clustered) fun _ => rfl).1.graph
  have hnumbered := (gatherUnit_measured sub.scope _ clustered 0 funcs .empty ms.builder []
    ms.outputs (gathered_unit hgather) (UnitBuilder.measured_empty _)).1.numbered
  refine ⟨sources, ms, l₁, l₂, hreads, hms, fun name buffers => ⟨?_, ?_⟩,
    fun i st hst => ⟨hnumbered i st hst, ?_, ?_⟩, hgraph, ?_, ?_, ?_⟩
  · exact request_eq_described hgather name buffers
  · exact hidden_add_outputs hgather name buffers
  · exact fun k hk => hbalanced.stated i st hst (.res k) hk
  · have hlt := (List.getElem?_eq_some_iff.mp hst).1
    rw [haligned.length] at hlt
    have he := List.getElem?_eq_getElem hlt
    rcases List.mem_flatMap.mp (List.mem_of_getElem? he) with ⟨f, hf, hcomputed⟩
    refine ⟨f, List.mem_of_mem_filter hf, _, f.expr.computed_subset hcomputed, he, ?_⟩
    rw [← hargs]
    exact haligned.stated i st _ hst he ms.builder.graph List.prefix_rfl
  · rw [haligned.nodes, List.length_map, haligned.length]
  · exact fun o ho => hbalanced.waiting _ (List.mem_map_of_mem ho)
  · -- Of the components that are registered, at most one is a unit.
    rcases (walk_lowerElement sub el).of_ok h with ⟨τ, htrace, hwritten⟩
    rcases hwritten.registered with ⟨calls, hcalls, hcomponents⟩
    rcases hcalls.session.asked.requests with ⟨asked, hsub, hrequests⟩
    have hsites : (calls.map Call.site).map Prod.fst = calls.map Call.component := by
      rw [List.map_map]
      rfl
    rw [hsites, hcomponents _ (Bodies.Keeps.refl _), units_of_trace htrace,
      unit?_of_gathered hmembers hgather] at hsub
    by_cases hempty : ms.builder.statements.isEmpty = true
    · rw [if_pos hempty] at hsub
      rw [hrequests, List.sublist_nil.mp hsub]
      exact Or.inl (List.append_nil _)
    · rw [if_neg hempty] at hsub
      rcases List.sublist_singleton.mp hsub with hnone | hone
      · rw [hrequests, hnone]
        exact Or.inl (List.append_nil _)
      · rw [hrequests, hone]
        refine Or.inr ⟨(ms.unit.under l'.session.cache.bodies).name, ?_⟩
        rw [hgraph]
        rfl

/-- A conditional, a constant and a forwarded channel in one cluster. The casts do
    not show, the constant has no output, and the comparison and the negation are
    hidden. -/
theorem requests_describe_clustered_functions :
    let p : Process := ⟨"p", ⟨[⟨"a", .int 8, .port .input, 0⟩, ⟨"b", .int 16, .port .input, 1⟩,
      ⟨"x", .int 8, .port .output, 2⟩, ⟨"k", .int 8, .port .output, 3⟩,
      ⟨"y", .int 8, .port .output, 4⟩]⟩, []⟩
    let funcs : List (Func ChannelId Expr) := [
      ⟨.query (.binary .lt (.var 0) (.var 1)) (.unary .not (.cast (.var 1) (some 4))) (.const 3),
        none, some 2⟩,
      ⟨.const 5, none, some 3⟩, ⟨.cast (.var 0) none, none, some 4⟩]
    let s : Session := { Session.start false .empty with
      metrics := [("latch1", ⟨1, 2, 10, 3⟩), ("twoToOne", ⟨0, 0, 20, 0⟩),
        ("source_5_8_", ⟨1, 1, 1, 1⟩)]
      estimator := some ⟨fun _ _ =>
        (RunResult.finished 0 "100e-12 1e-3 2e-9 1000e-12" "").reply "estimate"⟩ }
    let l : Lowering := ⟨s, ⟨[⟨0, "a", 8, 1, 0⟩, ⟨1, "b", 16, 1, 0⟩]⟩, .ofNames p.scope.names,
      p.declarations⟩
    let request : EstimateRequest := ⟨"func_0lt1_not1_r1qr0ec3_8_p0_port_8_p2",
      [⟨"x0", 8⟩, ⟨"x1", 16⟩],
      [⟨"res0", 1, .binary "<" (.input "x0") (.input "x1")⟩,
        ⟨"res1", 8, .unary "!" (.input "x1")⟩],
      [⟨"out0", 8, .select (.binary "<" (.input "x0") (.input "x1")) (.unary "!" (.input "x1"))
          (.const 3)⟩,
        ⟨"out1", 8, .input "x0"⟩]⟩
    Element.members? (.cluster funcs) = some (true, funcs) ∧
      ∃ u l', lowerElement ⟨p, [(0, 1), (1, 1)]⟩ (.cluster funcs) l = .ok u l' ∧
        l'.session.requests = [request] ∧ ∃ fu : FunctionalUnit,
          fu.statements.length = 4 ∧ request = fu.described p.scope funcs := by
  intro p funcs s l request
  have hrun : (match lowerElement ⟨p, [(0, 1), (1, 1)]⟩ (.cluster funcs) l with
      | .ok _ l' => l'.session.requests
      | .error _ _ => []) = [request] := by decide +kernel
  refine ⟨rfl, ?_⟩
  cases hlower : lowerElement ⟨p, [(0, 1), (1, 1)]⟩ (.cluster funcs) l with
  | error e l' =>
      rw [hlower] at hrun
      cases hrun
  | ok u l' =>
      rw [hlower] at hrun
      rcases requests_describe_functions _ (.cluster funcs) true funcs u l l' rfl hlower with
        ⟨_, ms, _, _, _, _, hdescribed, _, _, _, _, hnone | ⟨name, hone⟩⟩
      · cases hnone.symm.trans hrun
      · have hrequest : request = ms.builder.graph.request { ms.unit with name, buffers := [] } :=
          List.singleton_inj.mp (hrun.symm.trans hone)
        rcases hdescribed name [] with ⟨heq, hcount⟩
        rw [← hrequest] at heq hcount
        exact ⟨u, l', rfl, hrun, { ms.unit with name }, hcount.symm, heq⟩

end Elements

end DataflowCircuit
