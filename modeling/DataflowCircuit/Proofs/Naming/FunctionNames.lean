import DataflowCircuit.Proofs.FunctionalUnit.Evaluation
import DataflowCircuit.Proofs.FunctionalUnit.SingleUse
import DataflowCircuit.Proofs.Naming.Spellings

/-!
# What the Name of a Function Tells

A name lists the pieces of the operations of a unit, and of a piece the operation
can be read back. What is left of a unit is then the numbering of its arguments and
which result it sends, and a name mentions neither. For a function on its own they
follow. Every argument is read somewhere, so the operations show how many there
are, and every result but one is read once, so they show which one is sent.

For a cluster both conclusions fail. Several results are not read, and the name
does not say which member sends which of them. It also does not say which channel a
member forwards, which for a function on its own can only be its one argument. What
saves the names of functions from those of clusters is that every member of a
cluster adds its position.

Widths are left out throughout, because a template has parameters in their places.

## Main definitions

* `Statement.unsized`, `UnitOutput.unsized`: A statement and an output without
  their widths.
* `UnitBuilder.Whole`: What the body of one function leaves in a builder.

## Theorems

* `lowerOutput_whole`: Lowering one body leaves this.
* `Whole.determined`: The pieces of its operations determine the rest.
* `body_congr`: A body does not depend on widths.
* `unit_eq_of_func_name`: Functions of one name have the same unit, up to widths.
* `func_name_ne_cluster_name`: No cluster has the name of a function.
-/

namespace DataflowCircuit

/-- A statement without its width. -/
def Statement.unsized (st : Statement) : Statement :=
  { st with width := 0 }

/-- An output without its width. -/
def UnitOutput.unsized (o : UnitOutput) : UnitOutput :=
  { o with width := 0 }

namespace UnitBuilder

/-- What the body of one function leaves in a builder, if its output sends the
    result `i`. -/
structure Whole (b : UnitBuilder) (i : Nat) : Prop where
  named : b.name = b.statements.map fun st => st.op.token
  sized : b.argWidths.length = b.args.length
  numbered : b.Numbered
  balanced : b.Balanced [.res i]
  told : ∀ st ∈ b.statements, st.op.Told

variable {b b' : UnitBuilder} {i i' : Nat}

/-- The arguments are those that operations read. -/
theorem Whole.arg_iff (h : b.Whole i) (slot : Nat) :
    slot < b.args.length ↔ Operand.arg slot ∈ b.operands := by
  constructor
  · intro hslot
    refine (List.mem_append.mp (h.balanced.read slot hslot)).resolve_right fun hmem => ?_
    cases List.mem_singleton.mp hmem
  · exact fun hmem => h.balanced.below _ (List.mem_append_left _ hmem)

/-- The result that is sent is the only one that no operation reads. -/
theorem Whole.result_unique (h : b.Whole i) (j : Nat) (hj : j < b.statements.length)
    (hunread : Operand.res j ∉ b.operands) : j = i := by
  -- Every result is read once or sent.
  have honce := h.balanced.once j hj
  rw [List.count_append, List.count_eq_zero_of_not_mem hunread, Nat.zero_add] at honce
  have hmem : Operand.res j ∈ [Operand.res i] := List.count_pos_iff.mp (by omega)
  cases List.mem_singleton.mp hmem
  rfl

/-- The result that is sent exists, and no operation reads it. -/
theorem Whole.result_unread (h : b.Whole i) :
    i < b.statements.length ∧ Operand.res i ∉ b.operands := by
  have hlt : i < b.statements.length := h.balanced.waiting _ (List.mem_singleton_self _)
  have honce := h.balanced.once i hlt
  rw [List.count_append, List.count_singleton_self] at honce
  exact ⟨hlt, List.count_eq_zero.mp (by omega)⟩

/-- Numbered statements are their operations at their positions. -/
theorem Numbered.unsized_eq (h : b.Numbered) :
    b.statements.map Statement.unsized
      = (b.statements.map Statement.op).mapIdx fun k op => ⟨k, op, 0⟩ := by
  refine List.ext_getElem? fun k => ?_
  rw [List.getElem?_map, List.getElem?_mapIdx, List.getElem?_map]
  cases hst : b.statements[k]? with
  | none => rfl
  | some st =>
      rw [Option.map_some, Option.map_some, Option.map_some, ← h k st hst]
      rfl

/-- The pieces of the operations determine the rest, up to widths. -/
theorem Whole.determined (h : b.Whole i) (h' : b'.Whole i') (hname : b.name = b'.name) :
    b.argWidths.length = b'.argWidths.length ∧
      b.statements.map Statement.unsized = b'.statements.map Statement.unsized ∧ i = i' := by
  -- Pieces tell operations apart, except for what a forward reads, and a body forwards slot zero
  -- only.
  have hops : b.statements.map Statement.op = b'.statements.map Statement.op := by
    refine eq_of_map_eq Operation.token Operation.Told
      (fun op op' hop hop' => op.eq_of_token op' hop hop') _ _
      (List.forall_mem_map.mpr h.told) (List.forall_mem_map.mpr h'.told) ?_
    rw [List.map_map, List.map_map]
    exact h.named.symm.trans (hname.trans h'.named)
  have hread : ∀ b : UnitBuilder,
      b.operands = (b.statements.map Statement.op).flatMap Operation.operands := by
    intro b
    rw [List.flatMap_map]
    rfl
  have hoperands : b.operands = b'.operands := by rw [hread b, hread b', hops]
  refine ⟨?_, ?_, ?_⟩
  · -- Both read the same arguments, and every argument is read.
    have hslots : ∀ slot, slot < b.args.length ↔ slot < b'.args.length := by
      intro slot
      rw [h.arg_iff, h'.arg_iff, hoperands]
    have hleft := hslots b.args.length
    have hright := hslots b'.args.length
    rw [h.sized, h'.sized]
    omega
  · rw [h.numbered.unsized_eq, h'.numbered.unsized_eq, hops]
  · have hlength := congrArg List.length hops
    rw [List.length_map, List.length_map] at hlength
    rcases h.result_unread with ⟨hlt, hunread⟩
    exact h'.result_unique i (hlength ▸ hlt) (hoperands ▸ hunread)

end UnitBuilder

section Functions

open UnitBuilder

/-- A channel that is asked for first gets the first slot. -/
theorem arg_empty (s : Scope) (id : ChannelId) (slot : Nat) (b : UnitBuilder)
    (h : arg s id .empty = .ok (.arg slot) b) : slot = 0 ∧ b.statements = [] := by
  rcases arg_ok s id _ _ _ h with ⟨_, hslot, _, _⟩ | ⟨_, w, _, hslot, rfl⟩
  · cases hslot
  · cases hslot
    exact ⟨rfl, rfl⟩

/-- The operations of one body are told by their pieces. -/
theorem told_of_lowerOutput (s : Scope) (element : String) (e : Expr) (w i : Nat)
    (b : UnitBuilder) (h : e.lowerOutput s element w .empty = .ok i b) :
    ∀ st ∈ b.statements, st.op.Told := by
  rcases Expr.lowerOutput_ok s element e w i _ b h with hres | ⟨slot, b₁, harg, _, rfl⟩
  · -- What computes something forwards nothing.
    have hcompute := Expr.lower_invariant s element
      (fun b => ∀ st ∈ b.statements, st.op.isForward = false) (fun _ _ _ _ hb => hb)
      (fun b op v hop hb => List.forall_mem_append.mpr ⟨hb, List.forall_mem_singleton.mpr hop⟩)
      e w _ _ b hres (fun _ h => absurd h List.not_mem_nil)
    intro st hst hforward
    rw [hcompute st hst] at hforward
    cases hforward
  · rcases Expr.peel_of_lower_arg s element e w slot _ b₁ harg with ⟨id, _, hid⟩
    rcases arg_empty s id slot b₁ hid with ⟨rfl, hnone⟩
    intro st hst _
    rw [pushed_statements, hnone] at hst
    rw [List.mem_singleton.mp hst]

/-- Lowering one body leaves a whole builder. -/
theorem lowerOutput_whole (s : Scope) (element : String) (e : Expr) (w i : Nat)
    (b : UnitBuilder) (h : e.lowerOutput s element w .empty = .ok i b) : b.Whole i := by
  have hgrown : b.name = b.statements.map (fun st => st.op.token) ∧
      b.argWidths.length = b.args.length := by
    refine Expr.lowerOutput_invariant s element
      (fun b => b.name = b.statements.map (fun st => st.op.token) ∧
        b.argWidths.length = b.args.length) ?_ ?_ e w i _ b h ⟨rfl, rfl⟩
    · rintro b id v _ ⟨hname, hargs⟩
      refine ⟨hname, ?_⟩
      rw [addArg, List.length_append, List.length_append, hargs]
      rfl
    · rintro b op v ⟨hname, hargs⟩
      refine ⟨?_, hargs⟩
      rw [pushed_statements, List.map_append, ← hname]
      rfl
  exact ⟨hgrown.1, hgrown.2, Expr.lowerOutput_numbered s element e w i _ b h numbered_empty,
    Expr.lowerOutput_balanced s element e w i _ b [] h balanced_empty,
    told_of_lowerOutput s element e w i b h⟩

/-- The unit of a function is that of its body, with the pieces behind its
    operations. -/
theorem Element.unit?_func {s : Scope} {f : Func ChannelId Expr} {fu : FunctionalUnit}
    (h : (Element.func f).unit? s = some fu) : ∃ (b : UnitBuilder) (result width : Nat),
      b.Whole result ∧
      fu.name = unitName (b.name ++ Lowering.memberTokens false 0 width (Lowering.initialToken f)) ∧
      fu.argWidths = b.argWidths ∧ fu.statements = b.statements ∧
      fu.outputs = [⟨result, width, Lowering.initialToken f⟩] := by
  rcases Element.unit?_ok h with ⟨clustered, funcs, b, outs, hmembers, hgather, hstated, rfl⟩
  cases hmembers
  rcases Lowering.gatherUnit_cons hgather with
    ⟨v, _, hrest⟩ | ⟨out, width, result, b₁, _, _, _, hlower, hrest⟩
  · -- A constant function is a source and states nothing.
    cases hrest
    exact absurd rfl hstated
  · cases hrest
    exact ⟨b₁, result, width, lowerOutput_whole s _ f.expr width result b₁ hlower, rfl, rfl, rfl,
      rfl⟩

/-- The name of the unit of an element is spelled by pushed pieces, which give a
    position to every output of a cluster and to no other. -/
theorem Element.unit?_tokens {s : Scope} {el : Element ChannelId Expr} {fu : FunctionalUnit}
    (h : el.unit? s = some fu) : ∃ clustered funcs ts, el.members? = some (clustered, funcs) ∧
      fu.name = unitName ts ∧ (∀ t ∈ ts, t.Pushed) ∧
      (ts.countP NameToken.isMember = 0 ↔ clustered = false) := by
  rcases Element.unit?_ok h with ⟨clustered, funcs, b, outs, hmembers, hgather, hstated, rfl⟩
  have hpushed := pushed_gatherUnit s _ clustered 0 funcs .empty b [] outs hgather
    fun _ ht => absurd ht List.not_mem_nil
  rcases spells_gatherUnit s _ clustered 0 funcs .empty b [] outs hgather
    (spells_empty clustered) (fun _ => rfl) with ⟨hspells, hbare, _⟩
  refine ⟨clustered, funcs, b.name, hmembers, rfl, hpushed, ?_⟩
  rw [hspells.members]
  cases clustered with
  | false => simp
  | true =>
      -- A unit states something, so some member sends a result.
      have houts : outs ≠ [] := fun hnil => hstated (hbare hnil)
      simpa using houts

/-- The pieces of a function's operations come before the pieces behind them, and
    the latter tell the initial token. -/
theorem memberTokens_cut (ops ops' : List Operation) (w w' : Nat) (init init' : Option Nat)
    (h : ops.map Operation.token ++ Lowering.memberTokens false 0 w init
      = ops'.map Operation.token ++ Lowering.memberTokens false 0 w' init') :
    ops.map Operation.token = ops'.map Operation.token ∧ init = init' := by
  have hall : ∀ ops : List Operation,
      (ops.map Operation.token).filter NameToken.isOperation = ops.map Operation.token := by
    intro ops
    refine List.filter_eq_self.mpr (List.forall_mem_map.mpr fun op _ => ?_)
    cases op <;> rfl
  -- Behind the operations there is no piece of an operation.
  have hops := congrArg (List.filter NameToken.isOperation) h
  rw [List.filter_append, List.filter_append, (memberTokens_pieces false 0 w init).1,
    (memberTokens_pieces false 0 w' init').1, List.append_nil, List.append_nil, hall, hall] at hops
  rw [hops] at h
  refine ⟨hops, ?_⟩
  have hrest := List.append_cancel_left h
  cases init with
  | none =>
      cases init' with
      | none => rfl
      | some v' => cases hrest
  | some v =>
      cases init' with
      | none => cases hrest
      | some v' =>
          cases hrest
          rfl

/-- A body does not depend on widths. -/
theorem FunctionalUnit.body_congr (fu gu : FunctionalUnit)
    (hargs : fu.argWidths.length = gu.argWidths.length)
    (hstatements : fu.statements.map Statement.unsized = gu.statements.map Statement.unsized)
    (houtputs : fu.outputs.map UnitOutput.unsized = gu.outputs.map UnitOutput.unsized) :
    fu.body = gu.body := by
  have htexts : ∀ sts : List Statement,
      (sts.map Statement.unsized).map Statement.text = sts.map Statement.text := by
    intro sts
    rw [List.map_map]
    rfl
  have hnumbered : ∀ os : List UnitOutput,
      ((os.map UnitOutput.unsized).zipIdx.map fun numbered => outputText numbered.2 numbered.1)
        = os.zipIdx.map fun numbered => outputText numbered.2 numbered.1 := by
    intro os
    rw [List.zipIdx_map, List.map_map]
    rfl
  have hbody : ∀ u : FunctionalUnit, u.body = toString u.argWidths.length ++ "|" ++
      String.intercalate ";" (u.statements.map Statement.text) ++ "|" ++
      String.intercalate ","
        (u.outputs.zipIdx.map fun numbered => outputText numbered.2 numbered.1) := fun _ => rfl
  rw [hbody, hbody, hargs, ← htexts, hstatements, htexts, ← hnumbered, houtputs, hnumbered]

/-- Functions of one name have the same unit, up to widths. -/
theorem unit_eq_of_func_name {s s' : Scope} {f f' : Func ChannelId Expr}
    {fu fu' : FunctionalUnit} (h : (Element.func f).unit? s = some fu)
    (h' : (Element.func f').unit? s' = some fu') (hname : fu.name = fu'.name) :
    fu.argWidths.length = fu'.argWidths.length ∧
      fu.statements.map Statement.unsized = fu'.statements.map Statement.unsized ∧
      fu.outputs.map UnitOutput.unsized = fu'.outputs.map UnitOutput.unsized := by
  rcases Element.unit?_func h with ⟨b, i, w, hwhole, hspelled, hargs, hstatements, houtputs⟩
  rcases Element.unit?_func h' with
    ⟨b', i', w', hwhole', hspelled', hargs', hstatements', houtputs'⟩
  have hpushed : ∀ {b : UnitBuilder} {i : Nat} (w : Nat) (init : Option Nat), b.Whole i →
      ∀ t ∈ b.name ++ Lowering.memberTokens false 0 w init, t.Pushed := by
    intro b i w init hwhole
    refine List.forall_mem_append.mpr ⟨?_, pushed_memberTokens false 0 w init⟩
    rw [hwhole.named]
    exact List.forall_mem_map.mpr fun st _ => .operation st.op
  rw [hspelled, hspelled'] at hname
  -- Spelling is injective on pushed pieces, so equal names have equal pieces.
  have htokens := unitName_injective _ _ (hpushed w _ hwhole) (hpushed w' _ hwhole') hname
  have hops : ∀ {b : UnitBuilder} {i : Nat}, b.Whole i →
      b.name = (b.statements.map Statement.op).map Operation.token := by
    intro b i hwhole
    rw [hwhole.named, List.map_map]
    rfl
  rw [hops hwhole, hops hwhole'] at htokens
  rcases memberTokens_cut _ _ w w' _ _ htokens with ⟨hnames, hinit⟩
  rw [← hops hwhole, ← hops hwhole'] at hnames
  rcases hwhole.determined hwhole' hnames with ⟨hlength, hunsized, hresult⟩
  rw [hargs, hargs', hstatements, hstatements', houtputs, houtputs', hinit, hresult]
  exact ⟨hlength, hunsized, rfl⟩

/-- No cluster has the name of a function. -/
theorem func_name_ne_cluster_name {s s' : Scope} {f : Func ChannelId Expr}
    {funcs : List (Func ChannelId Expr)} {fu gu : FunctionalUnit}
    (h : (Element.func f).unit? s = some fu) (h' : (Element.cluster funcs).unit? s' = some gu) :
    fu.name ≠ gu.name := by
  rcases Element.unit?_tokens h with ⟨_, _, ts, hmembers, hts, hpushed, hnone⟩
  rcases Element.unit?_tokens h' with ⟨_, _, us, hmembers', hus, hpushed', hsome⟩
  cases hmembers
  cases hmembers'
  intro hname
  rw [hts, hus] at hname
  -- A cluster marks its members in the name, and a function marks none.
  rw [unitName_injective ts us hpushed hpushed' hname] at hnone
  cases hsome.mp (hnone.mpr rfl)

end Functions

end DataflowCircuit
