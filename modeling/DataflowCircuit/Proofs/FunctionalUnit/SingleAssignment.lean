import DataflowCircuit.Proofs.Emit.Fitting
import DataflowCircuit.Proofs.FunctionalUnit.SingleUse
import DataflowCircuit.Proofs.Lowering.Consistency
import Mathlib.Algebra.Group.Nat.Defs

/-!
# Units are Programs in Single Assignment

A unit is printed statement by statement: it receives its arguments, runs the
statements and sends the results of its outputs. What is printed can only be run
if the statements are a program in single assignment, which is what this file
shows of every unit that is written for a process that was read from text.

Three accounts of a unit come together. That every result is used once is the
balance of the builder. That an argument has the width of its channel is known
from how members are gathered. The third is that no width is zero. It is not true
of expressions on their own, because a cast may name any number and a scope may
declare any width; it holds of processes that were read, where both were checked.
An initial token is bounded by the width of its output for the same reason: it
fits, and fitting means being below the power of two only for widths that are not
zero.

A template that is written carries the unit as it was built, with its buffers, and
it is left out if a template of its name was written before. The unit of a call
site is the same program all the same, so both are compared with the unit of the
element, which has no buffers and the name that its operations spell.

## Main definitions

* `FunctionalUnit.SingleAssignment`: A unit that is a program in single
  assignment over the channels that it takes as arguments.
* `FunctionalUnit.IsUnitOf`: The unit of an element, whatever its name and its
  buffers.
* `Scope.Wide`, `UnitBuilder.Wide`, `Members.Wide`: No width is zero.

## Theorems

* `lower_wide`, `gathered_wide`: Lowering makes no width zero.
* `wide_of_origin`: Processes that were read declare none.
* `singleAssignment_of_gathered`: Members become a program in single assignment.
* `units_are_single_assignment`: So the units of processes that were read are.
-/

namespace DataflowCircuit

section Widths

/-- Every channel carries at least one bit. -/
def Scope.Wide (s : Scope) : Prop :=
  ∀ c ∈ s.channels, 0 < c.width

/-- A width that is found is not zero. -/
theorem Scope.Wide.width_pos {s : Scope} (hs : s.Wide) (id : ChannelId) (w : Nat)
    (h : s.width id = .ok w) : 0 < w := by
  have hw := (width_ok_iff s id w).mp h
  unfold Scope.width? at hw
  split at hw
  · rcases Option.map_eq_some_iff.mp hw with ⟨c, hc, rfl⟩
    exact hs c (List.mem_of_getElem? hc)
  · cases hw

/-- Every number takes at least one bit. -/
theorem bitsFor_pos (n : Nat) : 0 < bitsFor n := by
  unfold bitsFor
  split <;> omega

/-- A width that a channel may have is not zero. -/
theorem pos_of_isChannelWidth (w : Nat) (h : isChannelWidth w = true) : 0 < w := by
  unfold isChannelWidth at h
  simp only [Bool.and_eq_true, decide_eq_true_eq] at h
  exact h.1

/-- No argument and no result of the builder has width zero. -/
structure UnitBuilder.Wide (b : UnitBuilder) : Prop where
  args : ∀ w ∈ b.argWidths, 0 < w
  results : ∀ st ∈ b.statements, 0 < st.width

/-- An argument that carries something makes no width zero. -/
theorem UnitBuilder.wide_addArg (b : UnitBuilder) (id : ChannelId) (w : Nat) (hw : 0 < w)
    (hb : b.Wide) : (b.addArg id w).Wide :=
  ⟨List.forall_mem_append.mpr ⟨hb.args, List.forall_mem_singleton.mpr hw⟩, hb.results⟩

/-- Nor does a statement that computes something. -/
theorem UnitBuilder.wide_pushed (b : UnitBuilder) (t : NameToken) (op : Operation) (w : Nat)
    (hw : 0 < w) (hb : b.Wide) : (b.pushed t op w).Wide :=
  ⟨hb.args, List.forall_mem_append.mpr ⟨hb.results, List.forall_mem_singleton.mpr hw⟩⟩

namespace Expr

variable {s : Scope} (hs : s.Wide) (element : String)

include hs

/-- The width of an expression on its own is not zero. -/
theorem naturalWidth_pos (e : Expr) (he : e.Resolved s) (w : Nat)
    (h : e.naturalWidth s = .ok w) : 0 < w := by
  induction e generalizing w with
  | const v =>
      cases h
      exact bitsFor_pos v
  | var id => exact hs.width_pos id w h
  | binary op lhs rhs ihl ihr =>
      rw [naturalWidth] at h
      split at h
      · cases h
        exact Nat.one_pos
      · rcases except_bind_ok_iff.mp h with ⟨l, hl, h₁⟩
        rcases except_bind_ok_iff.mp h₁ with ⟨r, _, h₂⟩
        cases h₂
        exact Nat.lt_of_lt_of_le (ihl he.1 l hl) (Nat.le_max_left l r)
  | unary op arg ih => exact ih he w h
  | query c t e _ iht _ =>
      rcases except_bind_ok_iff.mp h with ⟨l, hl, h₁⟩
      rcases except_bind_ok_iff.mp h₁ with ⟨r, _, h₂⟩
      cases h₂
      exact Nat.lt_of_lt_of_le (iht he.2.1 l hl) (Nat.le_max_left l r)
  | cast arg width ih =>
      cases width with
      | none => exact ih he.1 w h
      | some v =>
          cases h
          -- A cast is checked when it is resolved, because its width may become that of a
          -- statement.
          exact pos_of_isChannelWidth _ (he.2 _ rfl)

/-- Nor is the width at which the sides of an operation are lowered. -/
theorem operandWidth_pos (op : BinOp) (lhs rhs : Expr) (hl : lhs.Resolved s) (w : Nat)
    (hw : 0 < w) (ow : Nat) (h : operandWidth s op lhs rhs w = .ok ow) : 0 < ow := by
  unfold operandWidth at h
  split at h
  · rcases except_bind_ok_iff.mp h with ⟨l, hlw, h₁⟩
    rcases except_bind_ok_iff.mp h₁ with ⟨r, _, h₂⟩
    cases h₂
    exact Nat.lt_of_lt_of_le (naturalWidth_pos hs lhs hl l hlw) (Nat.le_max_left l r)
  · cases h
    exact hw

/-- An expression that is lowered at some width makes no width zero. -/
theorem lower_wide (e : Expr) (he : e.Resolved s) (w : Nat) (hw : 0 < w) (a : Operand)
    (b b' : UnitBuilder) (h : e.lower s element w b = .ok a b') (hb : b.Wide) : b'.Wide := by
  induction e generalizing w a b b' with
  | const v =>
      rcases lower_const_ok s element v w a b b' h with ⟨_, rfl⟩
      exact hb
  | var id =>
      rcases UnitBuilder.arg_ok s id a b b' h with ⟨_, _, _, rfl⟩ | ⟨_, v, hv, _, rfl⟩
      · exact hb
      · exact b.wide_addArg id v (hs.width_pos id v hv) hb
  | cast arg width ih =>
      refine ih he.1 (width.getD w) ?_ a b b' h hb
      cases width with
      | none => exact hw
      | some v => exact pos_of_isChannelWidth v (he.2 v rfl)
  | unary op arg ih =>
      rcases lower_unary_ok s element op arg w a b b' h with ⟨x, b₁, hx, _, _, rfl⟩
      exact b₁.wide_pushed _ _ w hw (ih he w hw x b b₁ hx hb)
  | binary op lhs rhs ihl ihr =>
      rcases lower_binary_ok s element op lhs rhs w a b b' h with
        ⟨ow, x, b₁, y, b₂, how, hx, hy, _, _, rfl⟩
      have hpos := operandWidth_pos hs op lhs rhs he.1 w hw ow how
      -- A comparison has one bit, whatever it was asked for.
      have hresult : 0 < resultWidth op w := by
        unfold resultWidth
        split
        · exact Nat.one_pos
        · exact hw
      exact b₂.wide_pushed _ _ _ hresult
        (ihr he.2 ow hpos y b₁ b₂ hy (ihl he.1 ow hpos x b b₁ hx hb))
  | query c t e ihc iht ihe =>
      rcases lower_query_ok s element c t e w a b b' h with
        ⟨x, b₁, y, b₂, z, b₃, hx, hy, hz, _, _, _, rfl⟩
      exact b₃.wide_pushed _ _ w hw (ihe he.2.2 w hw z b₂ b₃ hz
        (iht he.2.1 w hw y b₁ b₂ hy (ihc he.1 1 Nat.one_pos x b b₁ hx hb)))

/-- Nor does lowering a function body make a width zero. -/
theorem lowerOutput_wide (e : Expr) (he : e.Resolved s) (w : Nat) (hw : 0 < w) (i : Nat)
    (b b' : UnitBuilder) (h : e.lowerOutput s element w b = .ok i b') (hb : b.Wide) :
    b'.Wide := by
  rcases lowerOutput_ok s element e w i b b' h with hres | ⟨slot, b₁, harg, _, rfl⟩
  · exact lower_wide hs element e he w hw _ b b' hres hb
  · exact b₁.wide_pushed _ _ w hw (lower_wide hs element e he w hw _ b b₁ harg hb)

end Expr

namespace Lowering

/-- No width in a record of members is zero, and the initial tokens are below the
    powers of two that the widths of their outputs name. -/
structure Members.Wide (ms : Members) : Prop where
  builder : ms.builder.Wide
  outputs : ∀ o ∈ ms.outputs, 0 < o.width ∧ ∀ v ∈ o.init, v < 2 ^ o.width

/-- Without members there is no width. -/
theorem members_wide_empty : Members.empty.Wide :=
  ⟨⟨fun _ h => absurd h List.not_mem_nil, fun _ h => absurd h List.not_mem_nil⟩,
    fun _ h => absurd h List.not_mem_nil⟩

/-- Members over a scope without empty channels make no width zero. -/
theorem gathered_wide {s : Scope} (hs : s.Wide) {element : String} {clustered : Bool}
    {position : Nat} {fs : List (Func ChannelId Expr)} {ms ms' : Members} {τ : Trace}
    (h : Gathered s element clustered position fs ms ms' τ)
    (hfs : ∀ f ∈ fs, f.expr.Resolved s) (hms : ms.Wide) : ms'.Wide := by
  induction h with
  | done position ms => exact hms
  | step position f fs ms ms₁ ms' τ τ' hadd hrest ih =>
      rw [List.forall_mem_cons] at hfs
      refine ih hfs.2 ?_
      cases hadd with
      | source value out hconst hout => exact hms
      | member out width result builder channel τ hconst hout hwidth hlower hfits =>
          have hpos := hs.width_pos out width hwidth
          have hgrown := Expr.lowerOutput_wide hs element f.expr hfs.1 width hpos result _ _ hlower
            hms.builder
          refine ⟨⟨hgrown.args, hgrown.results⟩, List.forall_mem_append.mpr ⟨hms.outputs, ?_⟩⟩
          refine List.forall_mem_singleton.mpr ⟨hpos, fun v hv => ?_⟩
          -- The check of the token is exact as soon as the width is not zero.
          have hbelow := (fits_iff v width hpos).mp (hfits v hv)
          rwa [Nat.one_shiftLeft] at hbelow

end Lowering

/-- The channels of a process that was read carry at least one bit. -/
theorem wide_of_origin {q : Process} {signature body : List Source.Entry}
    (hq : Source.Origin q signature body) : q.scope.Wide := by
  rcases hq.declared with ⟨s, hdeclare, _, hinfos⟩
  rcases Scope.declareAll_ok _ s _ hdeclare List.nodup_nil (fun id c hc => by cases hc) with
    ⟨hsame, _, _, hwidths⟩
  intro c hc
  -- A declared channel was an entry of the text, whose width was checked there.
  have hinfo : (⟨c.name, c.type, c.kind⟩ : NewChannel) ∈ q.scope.infos :=
    List.mem_map_of_mem hc
  rw [hinfos, hsame] at hinfo
  exact pos_of_isChannelWidth _ (hwidths _ hinfo)

end Widths

section Units

/-- What a unit reads: the operands of its statements, and the results that its
    outputs send. -/
def FunctionalUnit.uses (fu : FunctionalUnit) : List Operand :=
  (fu.statements.flatMap fun st => st.op.operands) ++ fu.outputs.map fun o => .res o.result

/-- A unit that takes the channels `args` as arguments is a program in single
    assignment. -/
structure FunctionalUnit.SingleAssignment (s : Scope) (args : List ChannelId)
    (fu : FunctionalUnit) : Prop where
  numbered : ∀ (i : Nat) (st : Statement), fu.statements[i]? = some st → st.index = i
  /-- A statement reads constants, arguments that exist, and earlier results. -/
  stated : ∀ (i : Nat) (st : Statement), fu.statements[i]? = some st →
    ∀ a ∈ st.op.operands, a.Below fu.argWidths.length i
  /-- An output sends a result that exists. -/
  sent : ∀ o ∈ fu.outputs, o.result < fu.statements.length
  /-- Every argument is read by a statement. -/
  read : ∀ slot < fu.argWidths.length, ∃ st ∈ fu.statements, .arg slot ∈ st.op.operands
  /-- Every result is read once, as an operand of a later statement or by an
      output. -/
  once : ∀ i < fu.statements.length, fu.uses.count (.res i) = 1
  received : fu.argWidths ≠ []
  sends : fu.outputs ≠ []
  distinct : args.Nodup
  measured : args.map s.width = fu.argWidths.map .ok
  /-- The widths of arguments, outputs and results. -/
  wide : ∀ w ∈ fu.params, 0 < w
  tokens : ∀ o ∈ fu.outputs, ∀ v ∈ o.init, v < 2 ^ o.width

/-- The unit is that of an element, under any name and with any buffers. -/
def FunctionalUnit.IsUnitOf (s : Scope) (el : Element ChannelId Expr) (fu : FunctionalUnit) :
    Prop :=
  ∃ base, el.unit? s = some base ∧ fu = { base with name := fu.name, buffers := fu.buffers }

/-- Neither the name nor the buffers of a unit matter. -/
theorem FunctionalUnit.SingleAssignment.rename {s : Scope} {args : List ChannelId}
    {fu : FunctionalUnit} (h : fu.SingleAssignment s args) (name : String)
    (buffers : List BufferedOutput) :
    ({ fu with name, buffers } : FunctionalUnit).SingleAssignment s args :=
  ⟨h.numbered, h.stated, h.sent, h.read, h.once, h.received, h.sends, h.distinct, h.measured,
    h.wide, h.tokens⟩

namespace Lowering

variable {p : Process} {el : Element ChannelId Expr} {clustered : Bool}
  {funcs : List (Func ChannelId Expr)} {ms : Members} {τ : Trace}

/-- The bodies of a resolved element are resolved. -/
theorem resolved_of_members (s : Scope) (hel : Source.Resolved s el)
    (hmembers : el.members? = some (clustered, funcs)) : ∀ f ∈ funcs, f.expr.Resolved s := by
  cases el with
  | func f =>
      cases hmembers
      exact List.forall_mem_singleton.mpr hel.1.expr
  | cluster fs =>
      cases hmembers
      exact fun f hf => (hel f hf).1.expr
  | _ => cases hmembers

/-- The reads of a resolved element have the widths that its unit lists. -/
theorem map_width_reads (s : Scope) (hel : Source.Resolved s el) :
    el.reads.map s.width = (el.reads.map s.widthOf).map .ok := by
  rw [List.map_map]
  refine List.map_congr_left fun id hid => ?_
  have hroot := isRoot_of_mem_references s el hel id (el.reads_subset_references id hid)
  rcases s.width_of_isRoot id hroot with ⟨w, hw⟩
  rw [hw, Function.comp_apply, Scope.widthOf_of_ok s id w hw]

/-- Members that state anything become a program in single assignment. -/
theorem singleAssignment_of_gathered (hwide : p.scope.Wide)
    (hel : Source.Resolved p.scope el) (hmembers : el.members? = some (clustered, funcs))
    (hgather : Gathered p.scope (el.print p.scope) clustered 0 funcs .empty ms τ)
    (hstated : ¬ ms.builder.statements.isEmpty = true) :
    ms.unit.SingleAssignment p.scope el.reads := by
  have hunit := unit?_of_gathered hmembers hgather
  rw [if_neg hstated] at hunit
  have hne : ms.builder.statements ≠ [] := fun hnil => hstated (List.isEmpty_iff.mpr hnil)
  rcases el.unit?_measured p ms.unit hunit with ⟨hmeasured, _, hnumbered⟩
  have hbalanced := gathered_balanced hgather UnitBuilder.balanced_empty
  have hsized := gathered_wide hwide hgather (resolved_of_members _ hel hmembers)
    members_wide_empty
  -- Gathering balances, measures and widens separately; here the three are read together.
  have hbare := (spells_gatherUnit _ _ clustered 0 funcs .empty _ [] _ (gathered_unit hgather)
    (UnitBuilder.spells_empty clustered) fun _ => rfl).2.1
  have hreads := Element.reads_of_members hmembers
  have hargs : ms.builder.args = el.reads := by
    rw [hreads]
    exact gathered_args hgather
  have hlength : ms.builder.args.length = ms.unit.argWidths.length := by
    rw [hargs, hmeasured, List.length_map]
  refine ⟨hnumbered, ?_, ?_, ?_, hbalanced.once, ?_, fun hnil => hne (hbare hnil), ?_, ?_, ?_,
    fun o ho => (hsized.outputs o ho).2⟩
  · rw [← hlength]
    exact hbalanced.stated
  · intro o ho
    exact hbalanced.waiting (.res o.result) (List.mem_map_of_mem ho)
  · intro slot hslot
    -- No argument waits, because what waits are results.
    rcases List.mem_append.mp (hbalanced.read slot (by omega)) with hread | hwaiting
    · exact List.mem_flatMap.mp hread
    · rcases List.mem_map.mp hwaiting with ⟨o, _, ho⟩
      cases ho
  · intro hnil
    rw [hnil, List.length_nil] at hlength
    exact hbalanced.fed hne (List.eq_nil_of_length_eq_zero hlength)
  · rw [hreads]
    exact readsOfFuncs_nodup funcs
  · rw [hmeasured]
    exact map_width_reads p.scope hel
  · refine List.forall_mem_append.mpr ⟨List.forall_mem_append.mpr ⟨hsized.builder.args, ?_⟩, ?_⟩
    · exact List.forall_mem_map.mpr fun o ho => (hsized.outputs o ho).1
    · exact List.forall_mem_map.mpr hsized.builder.results

/-- The unit of an element that left a trace is a program in single
    assignment. -/
theorem ElementTrace.singleAssignment {observed : ChannelId → Bool} (hwide : p.scope.Wide)
    (hel : Source.Resolved p.scope el) (h : ElementTrace p.scope observed el τ)
    (fu : FunctionalUnit) (hunit : el.unit? p.scope = some fu) :
    fu.SingleAssignment p.scope el.reads := by
  -- Splits, joins and sinks have no unit.
  cases h with
  | split => cases hunit
  | join el pipeline c outs served hjoin => cases el <;> cases hjoin <;> cases hunit
  | sink => cases hunit
  | members el clustered funcs served ms τ hmembers hserved hgather =>
      rw [unit?_of_gathered hmembers hgather] at hunit
      split at hunit
      · cases hunit
      · rename_i hstated
        rw [← Option.some.inj hunit]
        exact singleAssignment_of_gathered hwide hel hmembers hgather hstated

end Lowering

/-- The units of a process that was lowered are programs in single assignment, if
    its elements are resolved over channels that carry something. -/
theorem singleAssignment_of_lowerProcess (p : Process) (hwide : p.scope.Wide)
    (hels : ∀ el ∈ p.elements, Source.Resolved p.scope el) (s s' : Session)
    (out : LoweredProcess) (h : lowerProcess p s = .ok out s') :
    ∀ el ∈ p.elements, ∀ fu : FunctionalUnit, fu.IsUnitOf p.scope el →
      fu.SingleAssignment p.scope el.reads := by
  rcases lowerProcess_lowered p s s' out h with ⟨uses, plan, τ, hlow⟩
  rintro el hel fu ⟨base, hbase, hfu⟩
  rcases hlow.traced.mem el hel with ⟨τ', htrace⟩
  rw [hfu]
  exact (htrace.singleAssignment hwide (hels el hel) base hbase).rename _ _

/-- The units among the components of a process are units of its elements. -/
theorem isUnitOf_of_mem_components (p : Process) (pipeline : Bool) (T : Bodies)
    (gu : FunctionalUnit) (h : .unit gu ∈ p.components pipeline T) :
    ∃ el ∈ p.elements, gu.IsUnitOf p.scope el := by
  rcases unit_of_mem_components p pipeline T gu h with ⟨base, hbase, rfl⟩
  rcases List.mem_filterMap.mp hbase with ⟨el, hel, hunit⟩
  exact ⟨el, hel, base, hunit, rfl⟩

/-- The units that are written are units of the elements. -/
theorem isUnitOf_of_mem_templates (p : Process) (s s' : Session) (out : LoweredProcess)
    (h : lowerProcess p s = .ok out s') (t : Template) (ht : t ∈ out.templates)
    (fu : FunctionalUnit) (hfu : t.body = .func fu) :
    ∃ el ∈ p.elements, fu.IsUnitOf p.scope el := by
  rcases lowerProcess_registers p s s' out h with
    ⟨l, l', calls, hcalls, rfl, hstart, rfl, rfl, hcomponents⟩
  have htemplates := hcalls.templates
  rw [hstart] at htemplates
  rw [htemplates] at ht
  -- What is written is what was registered for one of the calls.
  rcases List.mem_map.mp (mem_of_mem_firsts Template.name _ _ t ht) with ⟨call, hcall, rfl⟩
  -- The unit that was written may be that of an earlier call with the same body, which changes its
  -- buffers only.
  rcases hcalls.implemented call hcall fu hfu with ⟨gu, hgu, hsame⟩
  have hmem := List.mem_map_of_mem (f := Call.component) hcall
  rw [hcomponents _ (Bodies.Keeps.refl _), hgu] at hmem
  rcases isUnitOf_of_mem_components p _ _ gu hmem with ⟨el, hel, base, hbase, heq⟩
  refine ⟨el, hel, base, hbase, ?_⟩
  rw [hsame, heq]

/-- Every unit that is written for a process read from text, and the unit behind
    every instance of one, is a program in single assignment: statements are
    numbered by their positions and read constants, arguments and earlier results,
    every argument is read, every result is used exactly once, there are arguments
    and outputs, the arguments are distinct channels with their widths, no width is
    zero, and initial tokens fit into their outputs. -/
theorem units_are_single_assignment (text : String) (written : Source.Program)
    (program : Program) (hparse : Source.parse text = .ok written)
    (hresolve : written.resolve = .ok program) (p : Process) (hp : p ∈ program)
    (s s' : Session) (out : LoweredProcess) (h : lowerProcess p s = .ok out s') :
    (∀ t ∈ out.templates, ∀ fu, t.body = .func fu →
      ∃ el ∈ p.elements, fu.IsUnitOf p.scope el ∧ fu.SingleAssignment p.scope el.reads) ∧
    out.sites.map Instance.key
      = (p.components s.pipeline s'.cache.bodies).map Component.key ∧
    ∀ fu, .unit fu ∈ p.components s.pipeline s'.cache.bodies →
      ∃ el ∈ p.elements, fu.IsUnitOf p.scope el ∧ fu.SingleAssignment p.scope el.reads := by
  rcases Source.accepted_of_parse text written hparse with ⟨ps, rfl, hps⟩
  rcases Source.exists_rewritten [] ps hps program hresolve with ⟨xs, rfl, hxs, _⟩
  rcases List.mem_map.mp hp with ⟨x, hx, rfl⟩
  rcases hxs x hx with ⟨signature, body, horigin, _⟩
  have hsingle := singleAssignment_of_lowerProcess x.1 (wide_of_origin horigin) horigin.elements
    s s' out h
  refine ⟨fun t ht fu hfu => ?_, ?_, fun fu hfu => ?_⟩
  · rcases isUnitOf_of_mem_templates x.1 s s' out h t ht fu hfu with ⟨el, hel, hunit⟩
    exact ⟨el, hel, hunit, hsingle el hel fu hunit⟩
  · rcases lowerProcess_emits x.1 s s' out h with ⟨calls, hcalls, hcomponents⟩
    have hsites := hcalls.sites
    rw [List.flatMap_singleton] at hsites
    rw [hsites, ← hcomponents _ (Bodies.Keeps.refl _), List.map_map]
    rfl
  · rcases isUnitOf_of_mem_components x.1 _ _ fu hfu with ⟨el, hel, hunit⟩
    exact ⟨el, hel, hunit, hsingle el hel fu hunit⟩

/-- A cluster with a constant member between two others, which share an argument.
    The first has an initial token and no buffer to hold it. -/
def sharedArgument : String :=
  "defproc p(chan?(int<8>)a,b;chan?(bool)c;chan!(int<8>)x,k,y)\x7bdataflow\x7b" ++
    "dataflow_cluster\x7bc?a+b:a->[0,7]x;5->k;a->y;\x7d\x7d\x7d"

/-- Its unit has three statements. The result of the first is read by the second,
    and those of the others are sent. -/
theorem shared_argument_is_single_assignment :
    let s : Session := { Session.start false .empty with
      metrics := [("source_5_8_", ⟨1, 1, 1, 1⟩)] }
    let fu : FunctionalUnit := ⟨"func_1add2_r0q0e1_init7_8_p0_port_8_p2", [1, 8, 8],
      [⟨0, .binary .add (.arg 1) (.arg 2), 8⟩, ⟨1, .select (.arg 0) (.res 0) (.arg 1), 8⟩,
        ⟨2, .forward (.arg 1), 8⟩], [⟨1, 8, some 7⟩, ⟨2, 8, none⟩], []⟩
    ∃ written p s' out, Source.parse sharedArgument = .ok written ∧
      written.resolve = .ok [p] ∧ lowerProcess p s = .ok out s' ∧
      out.templates.map Template.body = [.source, .func fu] ∧
      ∃ el ∈ p.elements, fu.IsUnitOf p.scope el ∧ fu.SingleAssignment p.scope el.reads := by
  intro s fu
  -- The whole way from the text is computed once, and what follows only reads it back.
  have hrun : (match Source.parse sharedArgument >>= Source.Program.resolve with
      | .ok program => program.map fun p =>
          match lowerProcess p s with
          | .ok out _ => out.templates.map Template.body
          | .error _ _ => []
      | .error _ => []) = [[.source, .func fu]] := by decide +kernel
  split at hrun
  · rename_i program hprogram
    rcases except_bind_ok_iff.mp hprogram with ⟨written, hparse, hresolve⟩
    rcases List.map_eq_singleton_iff.mp hrun with ⟨p, rfl, hp⟩
    split at hp
    · rename_i out s' hlower
      rcases units_are_single_assignment sharedArgument written [p] hparse hresolve p
        List.mem_cons_self s s' out hlower with ⟨hwritten, _⟩
      have hmem : .func fu ∈ out.templates.map Template.body := by
        rw [hp]
        exact List.mem_cons_of_mem _ List.mem_cons_self
      rcases List.mem_map.mp hmem with ⟨t, ht, hbody⟩
      exact ⟨written, p, s', out, hparse, hresolve, hlower, hp, hwritten t ht fu hbody⟩
    · cases hp
  · cases hrun

end Units

end DataflowCircuit
