import DataflowCircuit.Proofs.Netlist.Placements

/-!
# The Wiring of a Lowered Process

A process is lowered to its call sites. The components of its instances are known
from what it registers and their names from what it coins; this file adds the
ports, and the channels that are declared on the way with their widths.

All of it is read off traces. The one thing that is followed by hand is how
outputs are connected: an output that is declared is connected to its channel,
and any other to a channel that is introduced for it, together with what reads
that channel. `Connects` takes one output at a time. The outputs of a split are
connected one after another, the outputs of functions while their sources are
written, and both end in the same relation.

The names that a process draws are those that it coins, because both are the
names of its channels behind the declared ones.

## Main definitions

* `Connects`: Outputs as they are connected.
* `GathersWires`: What gathering functions connects.
* `Laid`: Call sites with the ports that they are placed with.
* `PlacedAs`: A process that is lowered to its call sites.

## Theorems

* `Connects.length`, `Connects.declarations`, `Connects.wires`, `Connects.readers`:
  The channels that are introduced, the wires of the outputs, and the ports of
  what reads the channels.
* `Connected.connects`, `gathered_wired`: Splits and functions connect their
  outputs.
* `ElementTrace.laid`, `Traced.laid`: Elements are laid as they are placed.
* `lowerProcess_placed`: So is a process.
-/

namespace DataflowCircuit

/-- Outputs as they are connected in order: the wires of the outputs, the
    channels that are introduced, and the ports of what reads those. -/
inductive Connects : List Outlet → List String → List ChanDecl → List (List String) → Prop where
  | nil : Connects [] [] [] []
  | declared (wire : Wire) (outs : List Outlet) (wires : List String) (chans : List ChanDecl)
      (readers : List (List String)) (hrest : Connects outs wires chans readers) :
      Connects (.declared wire :: outs) (wire.name :: wires) chans readers
  | fresh (seam : Seam) (name : String) (outs : List Outlet) (wires : List String)
      (chans : List ChanDecl) (readers : List (List String))
      (hrest : Connects outs wires chans readers) :
      Connects (.fresh seam :: outs) (name :: wires) (seam.declaration name :: chans)
        ((seam.placement name).ports :: readers)

namespace Connects

variable {outs : List Outlet} {ws : List String} {chans : List ChanDecl}
  {ports : List (List String)} (h : Connects outs ws chans ports)

include h

/-- A channel is introduced for every output that is not declared. -/
theorem length : chans.length = (outs.filterMap Outlet.seam?).length := by
  induction h with
  | nil => rfl
  | declared wire outs wires chans readers hrest ih => exact ih
  | fresh seam name outs wires chans readers hrest ih => exact congrArg (· + 1) ih

/-- It is declared with the width of the output. -/
theorem declarations : chans
    = List.zipWith Seam.declaration (outs.filterMap Outlet.seam?) (chans.map ChanDecl.name) := by
  induction h with
  | nil => rfl
  | declared wire outs wires chans readers hrest ih => exact ih
  | fresh seam name outs wires chans readers hrest ih => exact congrArg (_ :: ·) ih

/-- The output drives it. -/
theorem wires : ws = (connect outs (chans.map ChanDecl.name)).map Wire.name := by
  induction h with
  | nil => rfl
  | declared wire outs wires chans readers hrest ih => exact congrArg (wire.name :: ·) ih
  | fresh seam name outs wires chans readers hrest ih => exact congrArg (name :: ·) ih

/-- What stands behind the output reads it. -/
theorem readers : ports = (List.zipWith Seam.placement (outs.filterMap Outlet.seam?)
    (chans.map ChanDecl.name)).map Placement.ports := by
  induction h with
  | nil => rfl
  | declared wire outs wires chans readers hrest ih => exact ih
  | fresh seam name outs wires chans readers hrest ih => exact congrArg (_ :: ·) ih

end Connects

namespace Lowering

section Outputs

variable {s : Scope} {observed : ChannelId → Bool} {τ : Trace}

/-- What nobody observes of a split is read by sinks, which drive nothing. -/
theorem Connected.connects {outputs : List (Option ChannelId)} {r : SplitOutputs}
    (h : Connected s observed outputs r) (width : Nat) :
    Connects (Element.splitOutputs s observed width outputs) r.wires
      (Trace.sunk width r.sunk).declared (r.sunk.map fun wire => [wire]) := by
  unfold Element.splitOutputs
  induction h with
  | nil => exact .nil
  | observed out outs id r hout hrest ih =>
      rw [List.map_cons, hout]
      exact .declared (s.wire id) _ _ _ _ ih
  | sunk out outs wire r hout hrest ih =>
      rw [List.map_cons, hout]
      exact .fresh ⟨width, .sink width, []⟩ wire _ _ _ _ ih

/-- The ports of a buffer that is to be written. -/
def PendingBuffer.ports (b : PendingBuffer) : List String :=
  [b.channel, b.target]

/-- What gathering functions connects: their outputs to the wires of the unit,
    and a buffer to every channel that is introduced. -/
structure GathersWires (s : Scope) (fs : List (Func ChannelId Expr)) (ms ms' : Members)
    (τ : Trace) (wires : List String) (readers : List (List String)) : Prop where
  connects : Connects (fs.filterMap (Func.drives? s)) wires τ.declared readers
  sources : τ.sites.map Site.ports
    = (fs.filterMap (Func.sourcePlacement? s)).map Placement.ports
  wires : ms'.wires = ms.wires ++ wires
  buffers : ms'.buffers.map PendingBuffer.ports = ms.buffers.map PendingBuffer.ports ++ readers

/-- Functions connect their outputs in order. A constant is written as a source
    and is no output of the unit. -/
theorem gathered_wired {element : String} {clustered : Bool} {position : Nat}
    {fs : List (Func ChannelId Expr)} {ms ms' : Members}
    (h : Gathered s element clustered position fs ms ms' τ) :
    ∃ wires readers, GathersWires s fs ms ms' τ wires readers := by
  induction h with
  | done position ms =>
      exact ⟨[], [], .nil, rfl, (List.append_nil _).symm, (List.append_nil _).symm⟩
  | step position f fs ms ms₁ ms' τ τ' hadd hrest ih =>
      rcases ih with ⟨wires, readers, hmore⟩
      cases hadd with
      | source value out hconst hout =>
          have hdrives : Func.drives? s f = none := by
            simp [Func.drives?, hconst]
          have hplaced : Func.sourcePlacement? s f
              = some ⟨.source value (s.widthOf out), [], [s.wire out]⟩ := by
            simp [Func.sourcePlacement?, Func.source?, hconst, hout]
          refine ⟨wires, readers, ?_, ?_, hmore.wires, hmore.buffers⟩
          · rw [List.filterMap_cons_none hdrives]
            exact hmore.connects
          · rw [List.filterMap_cons_some hplaced]
            exact congrArg (_ :: ·) hmore.sources
      | member out width result builder channel τ hconst hout hwidth hlower hfits hdrive =>
          -- A function that computes something is no source, and its output is connected to a
          -- wire of the unit.
          have hplaced : Func.sourcePlacement? s f = none := by
            simp [Func.sourcePlacement?, Func.source?, hconst]
          have hwires : ms'.wires = ms.wires ++ channel :: wires := by
            rw [hmore.wires, Members.grow, List.append_assoc]
            rfl
          have hbuffers := hmore.buffers
          rw [Members.map_buffers_grow] at hbuffers
          cases hdrive with
          | declared hdepth =>
              have hdrives : Func.drives? s f = some (.declared (s.wire out)) := by
                simp [Func.drives?, hconst, hout, hdepth]
              rw [hdepth, Option.elim_none, List.append_nil] at hbuffers
              refine ⟨s.nameOf out :: wires, readers, ?_, ?_, hwires, hbuffers⟩
              · rw [List.filterMap_cons_some hdrives]
                exact .declared (s.wire out) _ _ _ _ hmore.connects
              · rw [List.filterMap_cons_none hplaced]
                exact hmore.sources
          | introduced depth channel hdepth =>
              -- The unit drives the new channel, and a buffer leads from it to the output.
              have hdrives : Func.drives? s f
                  = some (.fresh ⟨width, .buffer depth width, [s.wire out]⟩) := by
                simp [Func.drives?, hconst, hout, hdepth, Scope.widthOf_of_ok s out width hwidth]
              rw [hdepth, Option.elim_some, List.append_assoc] at hbuffers
              refine ⟨channel :: wires, [channel, s.nameOf out] :: readers, ?_, ?_, hwires,
                hbuffers⟩
              · rw [List.filterMap_cons_some hdrives]
                exact .fresh ⟨width, .buffer depth width, [s.wire out]⟩ channel _ _ _ _
                  hmore.connects
              · rw [List.filterMap_cons_none hplaced]
                exact hmore.sources

end Outputs

/-- The call sites of an element have the ports that they are placed with, and
    the channels that it introduces have their widths. -/
structure LaidElement (p : Process) (el : Element ChannelId Expr) (τ : Trace) : Prop where
  length : τ.declared.length = (el.seams p).length
  declared : τ.declared = List.zipWith Seam.declaration (el.seams p)
    (τ.declared.map ChanDecl.name)
  ports : ∀ pipeline T, τ.sites.map Site.ports = (el.placements p pipeline T
    (τ.served.map Prod.snd) (τ.declared.map ChanDecl.name)).map Placement.ports
  /-- A function or a cluster with an output has a unit. -/
  stated : ∀ clustered funcs, el.members? = some (clustered, funcs) → el.unit? p.scope = none →
    el.outputs p = []

/-- So have the call sites and channels of elements in order. -/
structure Laid (p : Process) (els : List (Element ChannelId Expr)) (τ : Trace) : Prop where
  length : τ.declared.length = (els.flatMap (Element.seams p)).length
  declared : τ.declared = List.zipWith Seam.declaration (els.flatMap (Element.seams p))
    (τ.declared.map ChanDecl.name)
  ports : ∀ pipeline T, τ.sites.map Site.ports = (placeAll p pipeline T els
    (τ.served.map Prod.snd) (τ.declared.map ChanDecl.name)).map Placement.ports
  stated : ∀ el ∈ els, ∀ clustered funcs, el.members? = some (clustered, funcs) →
    el.unit? p.scope = none → el.outputs p = []

section Elements

variable {p : Process} {el : Element ChannelId Expr} {τ : Trace}

/-- The wires of an element that is no unit are those it was served and those of
    its outputs. -/
theorem laidElement_of_routed {wires : List String} {readers : List (List String)}
    (hmembers : el.members? = none) (hserved : τ.served.map Prod.fst = el.reads)
    (hconnects : Connects (el.outputs p) wires τ.declared readers)
    (hports : ∀ pipeline reads writes, reads.map Wire.name = τ.served.map Prod.snd →
      writes.map Wire.name = wires → τ.sites.map Site.ports
        = (el.routed p pipeline reads writes).map Placement.ports ++ readers) :
    LaidElement p el τ := by
  refine ⟨hconnects.length, hconnects.declarations, fun pipeline T => ?_, fun _ _ h => ?_⟩
  -- The wires that serve the reads have the names that were served.
  · have hreads : (p.scope.servedWires el.reads (τ.served.map Prod.snd)).map Wire.name
        = τ.served.map Prod.snd :=
      servedWires_names _ _ _ (by rw [← hserved, List.length_map, List.length_map])
    rw [hports pipeline _ _ hreads hconnects.wires.symm, hconnects.readers, ← List.map_append]
    unfold Element.placements
    rw [hmembers]
    rfl
  · rw [hmembers] at h
    cases h

/-- A function or a cluster is laid as its sources, its unit, and the buffers
    behind it. -/
theorem laidElement_of_gathered {clustered : Bool} {funcs : List (Func ChannelId Expr)}
    {ms : Members} {served : List (ChannelId × String)}
    (hmembers : el.members? = some (clustered, funcs))
    (hserved : served.map Prod.fst = el.reads)
    (hgather : Gathered p.scope (el.print p.scope) clustered 0 funcs .empty ms τ) :
    LaidElement p el { τ with served, sites := τ.sites ++ ms.sites (served.map Prod.snd) } := by
  rcases gathered_wired hgather with ⟨wires, readers, hwired⟩
  have hsound := gathered_sound hgather sound_empty
  have hunit := unit?_of_gathered hmembers hgather
  have hconnects := hwired.connects
  rw [← Element.outputs_of_members p hmembers] at hconnects
  have hwires : ms.wires = wires := hwired.wires
  have hbuffers : ms.buffers.map PendingBuffer.ports = readers := hwired.buffers
  refine ⟨hconnects.length, hconnects.declarations, fun pipeline T => ?_,
    fun clustered funcs _ hnone => ?_⟩
  · have hreads : (p.scope.servedWires el.reads (served.map Prod.snd)).map Wire.name
        = served.map Prod.snd :=
      servedWires_names _ _ _ (by rw [← hserved, List.length_map, List.length_map])
    -- What reads the introduced channels is written behind the unit.
    have hbehind : readers = (List.zipWith Seam.placement (el.seams p)
      (τ.declared.map ChanDecl.name)).map Placement.ports := hconnects.readers
    unfold Element.placements Members.sites
    rw [hmembers]
    dsimp only
    rw [List.map_append, List.map_append, List.map_append, ← hbehind, ← hwired.sources, hunit,
      List.append_assoc]
    refine congrArg (_ ++ ·) ?_
    -- With a statement there is a unit, and without one there is nothing behind the sources.
    by_cases hempty : ms.builder.statements.isEmpty = true
    · rw [if_pos hempty, if_pos hempty, ← hbuffers, hsound.buffers_eq_nil hempty]
      rfl
    · rw [if_neg hempty, if_neg hempty, ← hbuffers, List.map_cons, List.map_map]
      refine congrArg (· :: _) ?_
      unfold Placement.ports
      rw [List.map_append, hreads, ← hconnects.wires, ← hwires]
      rfl
  · -- Without a statement nothing is connected, and every output is connected.
    have hempty : ms.builder.statements.isEmpty = true := by
      by_contra hstated
      rw [hunit, if_neg hstated] at hnone
      cases hnone
    have hlength := congrArg List.length hconnects.wires
    rw [List.length_map, connect_length, ← hwires, hsound.wires_eq_nil_iff.mpr hempty] at hlength
    exact List.length_eq_zero_iff.mp hlength.symm

/-- An element is laid as it is placed. -/
theorem ElementTrace.laid (h : ElementTrace p.scope p.observes el τ) : LaidElement p el τ := by
  cases h with
  | split guard input outputs pipeline inputWire guardWire r houts =>
      refine laidElement_of_routed rfl rfl (houts.connects (p.scope.widthOf input)) ?_
      intro pipeline reads writes hreads hwrites
      -- A split lists its guard first, although its input is read first.
      have hinstance : Placement.ports ⟨.routing .split pipeline outputs.length
          [p.scope.widthOf guard, p.scope.widthOf input], reads.reverse, writes⟩
            = guardWire :: inputWire :: r.wires := by
        unfold Placement.ports
        rw [List.map_append, List.map_reverse, hreads, hwrites]
        rfl
      unfold Element.routed
      rw [List.map_singleton, hinstance, List.map_cons, List.map_map]
      rfl
  | join el pipeline c outs served hjoin hserved =>
      -- What a join writes is declared.
      have hdeclared : ∀ ids : List ChannelId, Connects
          (ids.map fun id => .declared (p.scope.wire id)) (ids.map p.scope.nameOf) [] [] := by
        intro ids
        induction ids with
        | nil => exact .nil
        | cons id ids ih => exact .declared (p.scope.wire id) _ _ _ _ ih
      have hports : ∀ reads writes : List Wire, reads.map Wire.name = served.map Prod.snd →
          writes.map Wire.name = outs.map p.scope.nameOf →
            (joinSite p.scope c (served.map Prod.snd) outs).ports
              = (reads ++ writes).map Wire.name := by
        intro reads writes hreads hwrites
        rw [List.map_append, hreads, hwrites]
        rfl
      have hconnects := hdeclared outs
      -- The three kinds of joins differ in what they write only.
      cases el <;> cases hjoin <;>
        exact laidElement_of_routed rfl hserved hconnects fun _ reads writes hreads hwrites =>
          congrArg ([·]) (hports reads writes hreads hwrites)
  | sink input wire =>
      refine laidElement_of_routed rfl rfl .nil fun _ reads writes hreads hwrites => ?_
      have hports : [wire] = (reads ++ writes).map Wire.name := by
        rw [List.map_append, hreads, hwrites]
        rfl
      exact congrArg ([·]) hports
  | members el clustered funcs served ms τ hmembers hserved hgather =>
      exact laidElement_of_gathered hmembers hserved hgather

/-- Elements are laid one after another. -/
theorem Traced.laid {els : List (Element ChannelId Expr)} (h : Traced p.scope p.observes els τ) :
    Laid p els τ := by
  induction h with
  | nil => exact ⟨rfl, rfl, fun _ _ => rfl, fun _ hel => absurd hel List.not_mem_nil⟩
  | cons el els τ τ' hel hrest ih =>
      have hone := hel.laid
      -- An element takes as many wires as it has reads, and as many names as it introduces.
      have hwires : (τ.served.map Prod.snd).length = el.reads.length := by
        rw [← hel.served, List.length_map, List.length_map]
      have hnames : (τ.declared.map ChanDecl.name).length = (el.seams p).length := by
        rw [List.length_map, hone.length]
      refine ⟨?_, ?_, fun pipeline T => ?_, List.forall_mem_cons.mpr ⟨hone.stated, ih.stated⟩⟩
      · rw [Trace.declared_append, List.length_append, hone.length, ih.length, List.flatMap_cons,
          List.length_append]
      · rw [Trace.declared_append, List.map_append, List.flatMap_cons,
          List.zipWith_append hnames.symm, ← hone.declared, ← ih.declared]
      · unfold placeAll
        simp only [Trace.sites_append, Trace.served_append, Trace.declared_append,
          List.map_append, List.take_left' hwires, List.drop_left' hwires,
          List.take_left' hnames, List.drop_left' hnames, hone.ports pipeline T,
          ih.ports pipeline T]

end Elements

end Lowering

section Processes

open Lowering

/-- A copy is for the call site that reads its channel. -/
theorem isFor_of_isCopyOf {p : Process} {id : ChannelId} {inst : Instance}
    (h : IsCopyOf p.scope p.reads id inst) :
    Placement.IsFor ⟨.copy (p.scope.widthOf id) (p.reads.count id), [p.scope.wire id], []⟩
      inst := by
  rcases h with ⟨width, hwidth, rfl⟩
  have hw : p.scope.widthOf id = width := by
    rw [Scope.widthOf, hwidth, Option.getD_some]
  refine ⟨?_, rfl⟩
  rw [hw]
  exact (Component.key_copy ⟨id, p.scope.nameOf id, width, p.reads.count id, 0⟩).symm

/-- The copies of a process are for the call sites of the channels that are read
    more than once. -/
theorem Lowered.copies_isFor {p : Process} {s s' : Session} {out : LoweredProcess}
    {uses : UseCounts} {plan : CopyPlan} {τ : Trace} (h : Lowered p s s' out uses plan τ) :
    List.Forall₂ Placement.IsFor p.copyPlacements out.copies :=
  List.forall₂_map_left_iff.mpr (h.copied.imp fun _ _ hcopy => isFor_of_isCopyOf hcopy)

/-- What a process is lowered to: its copies and instances are for its call
    sites, and its channels are those that it declares and those that it
    introduces. -/
structure PlacedAs (p : Process) (pipeline : Bool) (T : Bodies) (out : LoweredProcess) :
    Prop where
  copies : List.Forall₂ Placement.IsFor p.copyPlacements out.copies
  instances : List.Forall₂ Placement.IsFor (p.ownPlacements pipeline T) out.instances
  channels : out.channels = p.declarations.channels ++
    List.zipWith Seam.declaration p.seams p.coined.channels
  length : p.coined.channels.length = p.seams.length
  /-- A function or a cluster with an output has a unit. -/
  stated : ∀ el ∈ p.elements, ∀ clustered funcs, el.members? = some (clustered, funcs) →
    el.unit? p.scope = none → el.outputs p = []

/-- The copies and instances of a process are for its call sites. -/
theorem PlacedAs.sites {p : Process} {pipeline : Bool} {T : Bodies} {out : LoweredProcess}
    (h : PlacedAs p pipeline T out) :
    List.Forall₂ Placement.IsFor (p.placements pipeline T) out.sites :=
  List.rel_append h.copies h.instances

/-- A process is lowered to its call sites. -/
theorem lowerProcess_placed (p : Process) (s s' : Session) (out : LoweredProcess)
    (h : lowerProcess p s = .ok out s') (T : Bodies) (hT : Bodies.Keeps s'.cache.bodies T) :
    PlacedAs p s.pipeline T out := by
  rcases lowerProcess_lowered p s s' out h with ⟨uses, plan, τ, hlow⟩
  rcases hlow.coined with ⟨_, hnames⟩
  have hlaid := hlow.observed.laid
  have hlength : p.coined.channels.length = p.seams.length := by
    rw [← hnames, List.length_map]
    exact hlaid.length
  have hinstances := hlow.instances T hT
  -- The ports are those of the call sites, with the wires that serve the reads of the process.
  have hports : out.instances.map Instance.ports
      = (p.ownPlacements s.pipeline T).map Placement.ports := by
    have hsites := hlaid.ports s.pipeline T
    rw [hlow.wires, hnames] at hsites
    rw [hinstances, List.map_map]
    exact hsites
  -- The keys are those of the components, under the names that the table gives.
  have hkeys : out.instances.map Instance.key
      = (p.ownPlacements s.pipeline T).map fun q => q.component.key := by
    have hcomponents := hlow.observed.components hlow.kinds T
    rw [← placeAll_component p s.pipeline T p.elements (servingWires p.scope p.reads)
      p.coined.channels hlength] at hcomponents
    have hkeys := congrArg (List.map Component.key) hcomponents
    rw [componentsOf, List.map_map, List.map_map] at hkeys
    rw [hinstances, List.map_map]
    exact hkeys
  refine ⟨hlow.copies_isFor, isFor_of_map_eq _ _ hkeys hports, ?_, hlength, hlaid.stated⟩
  have hdeclared := hlaid.declared
  rw [hnames] at hdeclared
  rw [hlow.channels, hdeclared]
  rfl

end Processes

end DataflowCircuit
