import DataflowCircuit.Proofs.Lowering.FanOut
import DataflowCircuit.Proofs.Naming.Order

/-!
# Components of a Process

A lowered process is a list of copies and instances. This file says, without
running anything, what each of them is an instance of: the components of a
process are read off its elements one by one, in the order in which lowering
writes them.

The name of a functional unit depends on the table of bodies, so the components
of a process are given for a table. The table at the end of a run is the one to
take, because a run keeps every entry it makes.

That these are the components that lowering writes is read off the traces of
elements.

## Main definitions

* `Func.source?`, `Func.bufferComponent?`: What a member of a unit is written
  with.
* `Element.components`, `Process.components`: The components of an element and
  of a process.

## Theorems

* `unit_of_mem_components`: The functional units among the components of a
  process are those of its elements, under the names that the table gives.
* `isConsumed_eq`: What lowering takes for consumed is what the process observes.
* `ElementTrace.components`, `Traced.components`: The call sites of a trace are
  those of the components.
-/

namespace DataflowCircuit

/-- The source of a function whose body is a constant. -/
def Func.source? (s : Scope) (f : Func ChannelId Expr) : Option Component := do
  let value ← f.expr.asConst?
  let out ← f.output
  return .source value (s.widthOf out)

/-- The buffer behind a function that computes something. -/
def Func.bufferComponent? (s : Scope) (f : Func ChannelId Expr) : Option Component :=
  if f.expr.asConst?.isSome then none
  else do
    let depth ← Lowering.bufferDepth? f
    let out ← f.output
    return .buffer depth (s.widthOf out)

namespace Process

/-- Is anything that is written to a channel observed? -/
def observes (p : Process) (id : ChannelId) : Bool :=
  p.reads.contains id || (p.scope.channel? id).any (·.kind.isPort)

/-- The copies of a process, in order of first reads. -/
def copies (p : Process) : List Component :=
  ((p.reads.foldl addRead []).filter fun id => 2 ≤ p.reads.count id).map fun id =>
    .copy (p.scope.widthOf id) (p.reads.count id)

end Process

namespace Element

/-- The components of an element that routes or drops tokens. A split is
    followed by the sinks of the outputs that nobody observes. -/
def routes (p : Process) (pipeline : Bool) : Element ChannelId Expr → List Component
  | .split guard input outputs =>
    let width := p.scope.widthOf input
    .routing .split pipeline outputs.length [p.scope.widthOf guard, width] ::
      (outputs.filter fun out => (out.filter p.observes).isNone).map fun _ => .sink width
  | .merge guard inputs out =>
    [.routing .merge pipeline inputs.length [p.scope.widthOf guard, p.scope.widthOf out]]
  | .mixer inputs out => [.routing .mixer pipeline inputs.length [p.scope.widthOf out]]
  | .arbiter inputs out ctrl =>
    [.routing .arbiter pipeline inputs.length [p.scope.widthOf out, p.scope.widthOf ctrl]]
  | .sink input => [.sink (p.scope.widthOf input)]
  | .func _ | .cluster _ => []

/-- The components of an element. A function or a cluster is the sources of its
    constant members, its unit, and the buffers behind it. -/
def components (p : Process) (pipeline : Bool) (T : Bodies) (el : Element ChannelId Expr) :
    List Component :=
  match el.members? with
  | some (_, funcs) =>
    funcs.filterMap (Func.source? p.scope) ++
      ((el.unit? p.scope).toList.map fun fu => .unit (fu.under T)) ++
      funcs.filterMap (Func.bufferComponent? p.scope)
  | none => el.routes p pipeline

end Element

/-- The components of a process if `T` is the table of bodies: the copies of
    its channels, then its elements. -/
def Process.components (p : Process) (pipeline : Bool) (T : Bodies) : List Component :=
  p.copies ++ p.elements.flatMap (Element.components p pipeline T)

/-- The units among the components of a process are those of its elements, under
    the names of their templates. -/
theorem unit_of_mem_components (p : Process) (pipeline : Bool) (T : Bodies) (gu : FunctionalUnit)
    (h : .unit gu ∈ p.components pipeline T) : ∃ fu ∈ p.units, gu = fu.under T := by
  rcases List.mem_append.mp h with h | h
  · rcases List.mem_map.mp h with ⟨id, _, hid⟩
    cases hid
  · rcases List.mem_flatMap.mp h with ⟨el, hel, hc⟩
    unfold Element.components at hc
    -- Only an element with members has a unit, and its sources and buffers are none.
    cases hmembers : el.members? with
    | some pair =>
        rw [hmembers] at hc
        simp only [List.mem_append] at hc
        rcases hc with (hc | hc) | hc
        · rcases List.mem_filterMap.mp hc with ⟨f, _, hf⟩
          unfold Func.source? at hf
          rcases Option.bind_eq_some_iff.mp hf with ⟨value, _, hf⟩
          rcases Option.bind_eq_some_iff.mp hf with ⟨out, _, hf⟩
          cases hf
        · rcases List.mem_map.mp hc with ⟨fu, hfu, hunit⟩
          cases hunit
          exact ⟨fu, List.mem_filterMap.mpr ⟨el, hel, Option.mem_toList.mp hfu⟩, rfl⟩
        · rcases List.mem_filterMap.mp hc with ⟨f, _, hf⟩
          unfold Func.bufferComponent? at hf
          split at hf
          · cases hf
          · rcases Option.bind_eq_some_iff.mp hf with ⟨depth, _, hf⟩
            rcases Option.bind_eq_some_iff.mp hf with ⟨out, _, hf⟩
            cases hf
    | none =>
        rw [hmembers] at hc
        cases el with
        | split guard input outputs =>
            rcases List.mem_cons.mp hc with hc | hc
            · cases hc
            · rcases List.mem_map.mp hc with ⟨out, _, hout⟩
              cases hout
        | func f => cases hc
        | cluster fs => cases hc
        | _ => cases List.mem_singleton.mp hc

/-- The units of a process are spelled by their operations. -/
theorem spelled_of_mem_units (p : Process) (fu : FunctionalUnit) (h : fu ∈ p.units) :
    fu.Spelled := by
  rcases List.mem_filterMap.mp h with ⟨el, _, hel⟩
  exact spelled_of_unit? p.scope el fu hel

/-- The components of a process are spelled. -/
theorem spelled_of_mem_components (p : Process) (pipeline : Bool) (T : Bodies) (c : Component)
    (h : c ∈ p.components pipeline T) : c.Spelled := by
  cases c with
  | unit gu =>
      rcases unit_of_mem_components p pipeline T gu h with ⟨fu, hfu, rfl⟩
      exact (spelled_of_mem_units p fu hfu).under T
  | _ => trivial

section Observed

/-- What counts as consumed is what the process observes. -/
theorem isConsumed_eq (p : Process) (uses : UseCounts) (huses : UseCounts.collect p = .ok uses) :
    Lowering.isConsumed ⟨p, uses⟩ = p.observes := by
  funext id
  have hcounted := collect_counted p uses huses
  have hread : uses.isRead id = p.reads.contains id := by
    rw [Bool.eq_iff_iff, List.contains_iff_mem, ← List.count_pos_iff, ← hcounted.reads]
    unfold UseCounts.isRead UseCounts.reads
    cases hlook : uses.lookup id with
    | none => simp
    | some n =>
        -- A channel that has an entry is read.
        rcases List.lookup_eq_some_iff.mp hlook with ⟨before, after, hsplit, _⟩
        have hentry : n = p.reads.count id := hcounted.entries (id, n) (by rw [hsplit]; simp)
        have hkey : id ∈ p.reads := by
          rw [← (foldl_addRead_pairwise p.reads).1, ← hcounted.keys, hsplit]
          simp
        have hpos := List.count_pos_iff.mpr hkey
        simp only [Option.isSome_some, Option.getD_some, true_iff]
        rw [hentry]
        exact hpos
  unfold Lowering.isConsumed Process.observes
  rw [hread]
  rfl

/-- The trace of a run observes what the process observes. -/
theorem Lowered.observed {p : Process} {s s' : Session} {out : LoweredProcess} {uses : UseCounts}
    {plan : CopyPlan} {τ : Trace} (h : Lowered p s s' out uses plan τ) :
    Lowering.Traced p.scope p.observes p.elements τ := by
  rw [← isConsumed_eq p uses h.counted]
  exact h.traced

end Observed

namespace Lowering

section Traces

/-- The components of call sites under the names of their templates. -/
def componentsOf (T : Bodies) (sites : List Site) : List Component :=
  sites.map fun site => site.component.under T

/-- While members are gathered the sources of the constant ones are written, and
    the buffers that are noted are those of the others. -/
theorem gathered_components {s : Scope} {element : String} {clustered : Bool} {position : Nat}
    {fs : List (Func ChannelId Expr)} {ms ms' : Members} {τ : Trace}
    (h : Gathered s element clustered position fs ms ms' τ) (T : Bodies) :
    componentsOf T τ.sites = fs.filterMap (Func.source? s) ∧
      ms'.buffers.map PendingBuffer.component
        = ms.buffers.map PendingBuffer.component ++ fs.filterMap (Func.bufferComponent? s) := by
  induction h with
  | done position ms => exact ⟨rfl, (List.append_nil _).symm⟩
  | step position f fs ms ms₁ ms' τ τ' hadd hrest ih =>
      rw [ih.2, componentsOf, Trace.sites_append, List.map_append]
      rw [componentsOf] at ih
      rw [ih.1]
      -- A member is a source, or it is stated and has a buffer if it asks for one.
      cases hadd with
      | source value out hconst hout =>
          have hsource : Func.source? s f = some (.source value (s.widthOf out)) := by
            simp [Func.source?, hconst, hout]
          have hbuffer : Func.bufferComponent? s f = none := by
            simp [Func.bufferComponent?, hconst]
          rw [List.filterMap_cons_some hsource, List.filterMap_cons_none hbuffer]
          exact ⟨rfl, rfl⟩
      | member out width result builder channel τ hconst hout hwidth hlower hfits hdrive =>
          have hsource : Func.source? s f = none := by
            simp [Func.source?, hconst]
          rw [List.filterMap_cons_none hsource, Members.map_buffers_grow, List.append_assoc]
          cases hdrive with
          | declared hdepth =>
              have hbuffer : Func.bufferComponent? s f = none := by
                simp [Func.bufferComponent?, hconst, hdepth]
              rw [List.filterMap_cons_none hbuffer, hdepth]
              exact ⟨rfl, rfl⟩
          | introduced depth channel hdepth =>
              have hbuffer : Func.bufferComponent? s f = some (.buffer depth width) := by
                simp [Func.bufferComponent?, hconst, hdepth, hout,
                  Scope.widthOf_of_ok s out width hwidth]
              rw [List.filterMap_cons_some hbuffer, hdepth]
              exact ⟨rfl, rfl⟩

/-- One wire is sunk for every output that nobody observes. -/
theorem Connected.sunk_length {s : Scope} {observed : ChannelId → Bool}
    {outputs : List (Option ChannelId)} {r : SplitOutputs} (h : Connected s observed outputs r) :
    r.sunk.length = (outputs.filter fun out => (out.filter observed).isNone).length := by
  induction h with
  | nil => rfl
  | observed out outs id r hout hrest ih =>
      rw [List.filter_cons_of_neg (by simp [hout])]
      exact ih
  | sunk out outs wire r hout hrest ih =>
      rw [List.filter_cons_of_pos (by simp [hout]), List.length_cons, List.length_cons, ih]

variable {p : Process} {pipeline : Bool} {τ : Trace}

/-- The call sites of an element are those of its components. -/
theorem ElementTrace.components {el : Element ChannelId Expr}
    (h : ElementTrace p.scope p.observes el τ) (hkinds : ∀ b ∈ τ.kinds, b = pipeline)
    (T : Bodies) : componentsOf T τ.sites = el.components p pipeline T := by
  cases h with
  | split guard input outputs kind inputWire guardWire r houts =>
      have hkind : kind = pipeline := hkinds kind List.mem_cons_self
      -- All sinks of a split have its width, so only their number matters.
      have hsinks : (r.sunk.map fun _ => Component.sink (p.scope.widthOf input))
          = (outputs.filter fun out => (out.filter p.observes).isNone).map
              fun _ => .sink (p.scope.widthOf input) := by
        rw [List.map_const', List.map_const', houts.sunk_length]
      rw [hkind]
      unfold componentsOf
      rw [List.map_cons, List.map_map]
      exact congrArg (_ :: ·) hsinks
  | join el kind c outs served hjoin hserved =>
      have hkind : kind = pipeline := hkinds kind List.mem_cons_self
      rw [hkind] at hjoin
      cases el <;> cases hjoin <;> rfl
  | sink input wire => rfl
  | members el clustered funcs served ms τ hmembers hserved hgather =>
      rcases gathered_components hgather T with ⟨hsources, hbuffers⟩
      -- Sources come first, then the unit, then the buffers.
      have hcomponents : el.components p pipeline T = funcs.filterMap (Func.source? p.scope) ++
          (((el.unit? p.scope).toList.map fun fu => .unit (fu.under T)) ++
            funcs.filterMap (Func.bufferComponent? p.scope)) := by
        rw [← List.append_assoc]
        unfold Element.components
        rw [hmembers]
      have hbuffers : ms.buffers.map PendingBuffer.component
          = funcs.filterMap (Func.bufferComponent? p.scope) := hbuffers
      rw [componentsOf] at hsources ⊢
      rw [hcomponents, List.map_append, hsources, unit?_of_gathered hmembers hgather, ← hbuffers]
      refine congrArg (funcs.filterMap (Func.source? p.scope) ++ ·) ?_
      unfold Members.sites
      -- Without a statement there is neither a unit nor a buffer.
      by_cases hempty : ms.builder.statements.isEmpty = true
      · rw [if_pos hempty, if_pos hempty,
          (gathered_sound hgather sound_empty).buffers_eq_nil hempty]
        rfl
      · rw [if_neg hempty, if_neg hempty, List.map_cons, List.map_map]
        rfl

/-- The call sites of elements in order are those of their components. -/
theorem Traced.components {els : List (Element ChannelId Expr)}
    (h : Traced p.scope p.observes els τ) (hkinds : ∀ b ∈ τ.kinds, b = pipeline) (T : Bodies) :
    componentsOf T τ.sites = els.flatMap (Element.components p pipeline T) := by
  induction h with
  | nil => rfl
  | cons el els τ τ' hel hrest ih =>
      rcases List.forall_mem_append.mp hkinds with ⟨hk, hk'⟩
      rw [componentsOf, Trace.sites_append, List.map_append, List.flatMap_cons,
        ← hel.components hk T, ← ih hk']
      rfl

end Traces

end Lowering

end DataflowCircuit
