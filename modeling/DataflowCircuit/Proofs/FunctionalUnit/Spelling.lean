import DataflowCircuit.Proofs.Netlist.Component

/-!
# The Unit of an Element

A function or a cluster becomes a functional unit, and which one is a matter of
its functions alone: their bodies are lowered into one builder after another,
and nothing else that lowering does reaches the unit. `gatherUnit` is that part
of lowering, and `Element.unit?` the unit under the name that its operations
spell.

The name spells what the unit does. Its pieces list the operations of the
statements in order, and every member of a cluster adds a piece for itself.
`UnitBuilder.Spells` says so of a builder whose members have been lowered so far,
and `spelled_of_unit?` of the unit at the end.

## Main definitions

* `Element.members?`: The functions of an element that becomes a unit.
* `Lowering.gatherUnit`: Lower the bodies of functions into a builder.
* `Element.unit?`: The unit of an element, with the name its operations spell.
* `Lowering.Members.unit`: The unit of gathered members.
* `UnitBuilder.Spells`: A builder whose name lists its operations and members.

## Theorems

* `Lowering.gatherUnit_cons`: One member more.
* `Element.unit?_ok`: What the unit of an element is made of.
* `spells_gatherUnit`: Lowering bodies keeps the spelling.
* `spelled_of_unit?`: The unit of an element is spelled.
-/

namespace DataflowCircuit

namespace Element

/-- The functions of an element that becomes a unit, and whether they form a
    cluster. -/
def members? : Element ChannelId Expr → Option (Bool × List (Func ChannelId Expr))
  | .func f => some (false, [f])
  | .cluster funcs => some (true, funcs)
  | _ => none

end Element

namespace Lowering

/-- The unit of members, with its buffers left out: neither its key nor its
    body mentions them. -/
def Members.unit (ms : Members) : FunctionalUnit where
  name := unitName ms.builder.name
  argWidths := ms.builder.argWidths
  statements := ms.builder.statements
  outputs := ms.outputs
  buffers := []

/-- The builder and the outputs after the members from a position on, without
    the rest of what lowering does. -/
def gatherUnit (s : Scope) (element : String) (clustered : Bool) :
    Nat → List (Func ChannelId Expr) → UnitBuilder → List UnitOutput →
      Option (UnitBuilder × List UnitOutput)
  | _, [], b, outs => some (b, outs)
  | position, f :: fs, b, outs =>
    match f.expr.asConst? with
    | some _ => gatherUnit s element clustered (position + 1) fs b outs
    | none => do
      let out ← f.output
      let width ← (s.width out).toOption
      match f.expr.lowerOutput s element width b with
      | .error _ _ => none
      | .ok result b =>
        gatherUnit s element clustered (position + 1) fs
          { b with name := b.name ++ memberTokens clustered position width (initialToken f) }
          (outs ++ [⟨result, width, initialToken f⟩])

/-- A constant member changes nothing. Any other has its body lowered, and the
    pieces behind its operations are added. -/
theorem gatherUnit_cons {s : Scope} {element : String} {clustered : Bool} {position : Nat}
    {f : Func ChannelId Expr} {fs : List (Func ChannelId Expr)} {b : UnitBuilder}
    {outs : List UnitOutput} {unit : UnitBuilder × List UnitOutput}
    (h : gatherUnit s element clustered position (f :: fs) b outs = some unit) :
    (∃ v, f.expr.asConst? = some v ∧
      gatherUnit s element clustered (position + 1) fs b outs = some unit) ∨
    ∃ out width result b₁, f.expr.asConst? = none ∧ f.output = some out ∧
      s.width out = .ok width ∧ f.expr.lowerOutput s element width b = .ok result b₁ ∧
      gatherUnit s element clustered (position + 1) fs
        { b₁ with name := b₁.name ++ memberTokens clustered position width (initialToken f) }
        (outs ++ [⟨result, width, initialToken f⟩]) = some unit := by
  rw [gatherUnit] at h
  cases hconst : f.expr.asConst? with
  | some v =>
      rw [hconst] at h
      exact Or.inl ⟨v, rfl, h⟩
  | none =>
      rw [hconst] at h
      rcases Option.bind_eq_some_iff.mp h with ⟨out, hout, h⟩
      rcases Option.bind_eq_some_iff.mp h with ⟨width, hwidth, h⟩
      -- The width is read as an option here, and as a result where the code fails on it.
      have hwidth : s.width out = .ok width := by
        cases hrun : s.width out with
        | error e =>
            rw [hrun] at hwidth
            cases hwidth
        | ok w =>
            rw [hrun] at hwidth
            rw [Option.some.inj hwidth]
      split at h
      · cases h
      · rename_i result b₁ hlower
        exact Or.inr ⟨out, width, result, b₁, rfl, hout, hwidth, hlower, h⟩

end Lowering

namespace Element

/-- The functional unit of an element under the name that its operations
    spell. An element that routes tokens or only sends constants has none. -/
def unit? (s : Scope) (el : Element ChannelId Expr) : Option FunctionalUnit := do
  let (clustered, funcs) ← el.members?
  let (b, outs) ← Lowering.gatherUnit s (el.print s) clustered 0 funcs .empty []
  if b.statements.isEmpty then none
  else some ⟨unitName b.name, b.argWidths, b.statements, outs, []⟩

end Element

/-- The unit of an element is gathered from its functions and states something. -/
theorem Element.unit?_ok {s : Scope} {el : Element ChannelId Expr} {fu : FunctionalUnit}
    (h : el.unit? s = some fu) : ∃ clustered funcs b outs,
      el.members? = some (clustered, funcs) ∧
      Lowering.gatherUnit s (el.print s) clustered 0 funcs .empty [] = some (b, outs) ∧
      b.statements ≠ [] ∧ fu = ⟨unitName b.name, b.argWidths, b.statements, outs, []⟩ := by
  unfold Element.unit? at h
  rcases Option.bind_eq_some_iff.mp h with ⟨⟨clustered, funcs⟩, hmembers, h⟩
  rcases Option.bind_eq_some_iff.mp h with ⟨⟨b, outs⟩, hgather, h⟩
  by_cases hempty : b.statements.isEmpty = true
  · simp only [if_pos hempty] at h
    cases h
  · simp only [if_neg hempty, Option.some.injEq] at h
    exact ⟨clustered, funcs, b, outs, hmembers, hgather,
      fun hnil => hempty (List.isEmpty_iff.mpr hnil), h.symm⟩

/-- What an element that becomes a unit reads are the reads of its functions. -/
theorem Element.reads_of_members {el : Element ChannelId Expr} {clustered : Bool}
    {funcs : List (Func ChannelId Expr)} (h : el.members? = some (clustered, funcs)) :
    el.reads = readsOfFuncs funcs := by
  cases el with
  | func f =>
      cases h
      rfl
  | cluster fs =>
      cases h
      rfl
  | _ => cases h

section Units

/-- What holds of a builder whose members so far have the outputs `outs`: its
    name lists its operations and its members, and its graph the trees of its
    statements. -/
structure UnitBuilder.Spells (clustered : Bool) (outs : List UnitOutput) (b : UnitBuilder) :
    Prop where
  operations : b.name.filter NameToken.isOperation = b.statements.map fun st => st.op.token
  members : b.name.countP NameToken.isMember = if clustered then outs.length else 0
  graph : b.graph = b.statements.foldl (fun g st => g.push st.op) .empty

/-- A builder without members has an empty name. -/
theorem UnitBuilder.spells_empty (clustered : Bool) : UnitBuilder.empty.Spells clustered [] := by
  refine ⟨rfl, ?_, rfl⟩
  cases clustered <;> rfl

/-- Both ways to grow a builder keep its spelling. -/
theorem UnitBuilder.spells_pushed (clustered : Bool) (outs : List UnitOutput) (b : UnitBuilder)
    (op : Operation) (w : Nat) (h : b.Spells clustered outs) :
    (b.pushed op.token op w).Spells clustered outs := by
  -- The piece of an operation is never mistaken for the mark of a member.
  have hop : op.token.isOperation = true ∧ op.token.isMember = false := by
    cases op <;> exact ⟨rfl, rfl⟩
  have hname : (b.pushed op.token op w).name = b.name ++ [op.token] := rfl
  have hgraph : (b.pushed op.token op w).graph = b.graph.push op := rfl
  refine ⟨?_, ?_, ?_⟩
  · rw [hname, pushed_statements, List.filter_append, h.operations, List.map_append,
      List.filter_singleton, hop.1]
    rfl
  · rw [hname, List.countP_append, h.members, List.countP_singleton, hop.2]
    simp
  · rw [hgraph, pushed_statements, List.foldl_append, ← h.graph]
    rfl

/-- A member adds no operation to the name, and one mark of a member inside a
    cluster. -/
theorem memberTokens_pieces (clustered : Bool) (position width : Nat) (init : Option Nat) :
    (Lowering.memberTokens clustered position width init).filter NameToken.isOperation = [] ∧
      (Lowering.memberTokens clustered position width init).countP NameToken.isMember
        = if clustered then 1 else 0 := by
  unfold Lowering.memberTokens
  cases clustered <;> cases init <;> exact ⟨rfl, rfl⟩

/-- The members of a unit keep its spelling, and there is no statement without
    an output. -/
theorem spells_gatherUnit (s : Scope) (element : String) (clustered : Bool) (position : Nat)
    (fs : List (Func ChannelId Expr)) (b b' : UnitBuilder) (outs outs' : List UnitOutput)
    (h : Lowering.gatherUnit s element clustered position fs b outs = some (b', outs'))
    (hb : b.Spells clustered outs) (hbare : outs = [] → b.statements = []) :
    b'.Spells clustered outs' ∧ (outs' = [] → b'.statements = []) ∧
      outs'.length ≤ outs.length + fs.length := by
  induction fs generalizing position b outs with
  | nil =>
      cases h
      exact ⟨hb, hbare, Nat.le_refl _⟩
  | cons f fs ih =>
      rcases Lowering.gatherUnit_cons h with
        ⟨v, _, h⟩ | ⟨out, width, result, b₁, _, _, _, hlower, h⟩
      · rcases ih _ b outs h hb hbare with ⟨hspells, hempty, hlen⟩
        exact ⟨hspells, hempty, by rw [List.length_cons]; omega⟩
      -- The body pushes operations only, so the members counted so far stay as many.
      · have hkept := Expr.lowerOutput_invariant s element (UnitBuilder.Spells clustered outs)
          (fun _ _ _ _ hb => ⟨hb.operations, hb.members, hb.graph⟩)
          (UnitBuilder.spells_pushed clustered outs) f.expr width result b b₁ hlower hb
        rcases memberTokens_pieces clustered position width
          (Lowering.initialToken f) with ⟨hops, hmembers⟩
        have hgrown : UnitBuilder.Spells clustered
            (outs ++ [⟨result, width, Lowering.initialToken f⟩])
            { b₁ with name := b₁.name ++
                Lowering.memberTokens clustered position width (Lowering.initialToken f) } := by
          refine ⟨?_, ?_, hkept.graph⟩
          · rw [List.filter_append, hops, List.append_nil]
            exact hkept.operations
          · rw [List.countP_append, hmembers, hkept.members, List.length_append,
              List.length_singleton]
            cases clustered <;> rfl
        -- From here on there is an output, and the condition on bare builders holds for free.
        have hsome : outs ++ [⟨result, width, Lowering.initialToken f⟩] ≠ [] :=
          List.append_ne_nil_of_right_ne_nil _ (by simp)
        rcases ih _ _ _ h hgrown (fun hnil => absurd hnil hsome) with ⟨hspells, hempty, hlen⟩
        refine ⟨hspells, hempty, ?_⟩
        rw [List.length_append, List.length_singleton] at hlen
        rw [List.length_cons]
        omega

/-- The unit of an element is spelled. -/
theorem spelled_of_unit? (s : Scope) (el : Element ChannelId Expr) (fu : FunctionalUnit)
    (h : el.unit? s = some fu) : fu.Spelled := by
  rcases Element.unit?_ok h with ⟨clustered, funcs, b, outs, hmembers, hgather, hstated, rfl⟩
  rcases spells_gatherUnit s _ clustered 0 funcs .empty b [] outs hgather
    (UnitBuilder.spells_empty clustered) (fun _ => rfl) with ⟨hspells, hbare, hlen⟩
  -- A unit without outputs would have no statements, and then no unit.
  have houts : 0 < outs.length := List.length_pos_iff.mpr fun hnil => hstated (hbare hnil)
  refine ⟨hstated, b.name, rfl, hspells.operations, ?_⟩
  rw [hspells.members]
  cases clustered with
  | true =>
      simp only [if_true]
      omega
  | false =>
      -- A function on its own is its only member.
      have hone : funcs.length = 1 := by
        cases el with
        | func f =>
            cases hmembers
            rfl
        | _ => cases hmembers
      simp only [List.length_nil, hone] at hlen
      simp only [Bool.false_eq_true, if_false]
      omega

end Units

end DataflowCircuit
