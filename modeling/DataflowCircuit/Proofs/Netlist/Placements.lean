import DataflowCircuit.Proofs.Netlist.Identifiers

/-!
# Call Sites of a Process

A component says what a call site is an instance of, and leaves its wiring open.
This file fills in the wiring, again without running anything: the call sites of
a process are computed from the process, with the wires that each of them reads
and writes and the widths of the channels behind them.

Every element has at most one instance that reads what it reads, and its outputs
are declared channels or channels that lowering introduces. An introduced channel
is described by what stands behind it, a sink for an output that nobody observes
and a buffer for one that is buffered, so splits and functions are treated alike:
the instance of an element is followed by what reads the channels behind its
outputs, in their order. Which names these channels have is a parameter.

## Main definitions

* `Wire`, `Placement`: A call site with its wires.
* `Seam`, `Outlet`: What stands behind an output.
* `connect`: Outputs as wires.
* `Element.outputs`, `Element.seams`, `Element.placements`: The outputs, the
  introduced channels and the call sites of an element.
* `Process.placements`: The call sites of a process.
* `Placement.IsFor`: An instance of a call site.

## Theorems

* `connect_length`: Every output has a wire.
* `Process.placements_component`: Call sites are instances of the components.
-/

namespace DataflowCircuit

/-- A wire of an instance, with the width of the channel whose tokens it
    carries. -/
structure Wire where
  name : String
  width : Nat
  deriving DecidableEq, Repr

/-- A channel that lowering introduces behind an output: its width, what reads
    it, and the wires that the reader drives. -/
structure Seam where
  width : Nat
  reader : Component
  targets : List Wire

/-- An output of the instance of an element: a declared channel, or one that is
    introduced. -/
inductive Outlet where
  | declared (wire : Wire)
  | fresh (seam : Seam)

/-- The channel that an output introduces. -/
def Outlet.seam? : Outlet → Option Seam
  | .declared _ => none
  | .fresh seam => some seam

/-- A call site: what it is an instance of, and the wires that it reads and the
    wires that it writes, in the order of its ports. -/
structure Placement where
  component : Component
  reads : List Wire
  writes : List Wire

namespace Placement

/-- The wires of an instance. -/
def ports (q : Placement) : List String :=
  (q.reads ++ q.writes).map Wire.name

end Placement

/-- The instance that reads an introduced channel of a name. -/
def Seam.placement (seam : Seam) (name : String) : Placement :=
  ⟨seam.reader, [⟨name, seam.width⟩], seam.targets⟩

/-- The declaration of an introduced channel. -/
def Seam.declaration (seam : Seam) (name : String) : ChanDecl :=
  ⟨name, .int seam.width⟩

/-- Outputs as wires. Introduced channels have the names `names` in order. -/
def connect : List Outlet → List String → List Wire
  | [], _ => []
  | .declared wire :: outs, names => wire :: connect outs names
  | .fresh seam :: outs, names =>
    ⟨names.headD "", seam.width⟩ :: connect outs names.tail

/-- A declared channel as a wire. -/
def Scope.wire (s : Scope) (id : ChannelId) : Wire :=
  ⟨s.nameOf id, s.widthOf id⟩

/-- The wires that serve reads. -/
def Scope.servedWires (s : Scope) (reads : List ChannelId) (ws : List String) : List Wire :=
  List.zipWith (fun id name => ⟨name, s.widthOf id⟩) reads ws

namespace Func

/-- The output of a function that computes something: the channel that it
    declares, or one in front of a buffer. -/
def drives? (s : Scope) (f : Func ChannelId Expr) : Option Outlet :=
  if f.expr.asConst?.isSome then none
  else f.output.map fun out =>
    match Lowering.bufferDepth? f with
    | none => .declared (s.wire out)
    | some depth =>
      .fresh ⟨s.widthOf out, .buffer depth (s.widthOf out), [s.wire out]⟩

/-- The source of a function whose body is a constant. -/
def sourcePlacement? (s : Scope) (f : Func ChannelId Expr) : Option Placement := do
  let component ← f.source? s
  let out ← f.output
  return ⟨component, [], [s.wire out]⟩

end Func

namespace Element

/-- The outputs of a split. Nobody observes an output that is not connected, or
    whose channel is neither read nor a port. -/
def splitOutputs (s : Scope) (observed : ChannelId → Bool) (width : Nat)
    (outputs : List (Option ChannelId)) : List Outlet :=
  outputs.map fun out =>
    match out.filter observed with
    | some id => .declared (s.wire id)
    | none => .fresh ⟨width, .sink width, []⟩

/-- The outputs of the instance of an element. -/
def outputs (p : Process) : Element ChannelId Expr → List Outlet
  | .func f => [f].filterMap (Func.drives? p.scope)
  | .cluster funcs => funcs.filterMap (Func.drives? p.scope)
  | .split _ input outputs => splitOutputs p.scope p.observes (p.scope.widthOf input) outputs
  | .merge _ _ out => [.declared (p.scope.wire out)]
  | .mixer _ out => [.declared (p.scope.wire out)]
  | .arbiter _ out ctrl => [.declared (p.scope.wire out), .declared (p.scope.wire ctrl)]
  | .sink _ => []

/-- The outputs of members are those of the functions. -/
theorem outputs_of_members (p : Process) {el : Element ChannelId Expr} {clustered : Bool}
    {funcs : List (Func ChannelId Expr)} (h : el.members? = some (clustered, funcs)) :
    el.outputs p = funcs.filterMap (Func.drives? p.scope) := by
  cases el with
  | func f =>
      cases h
      rfl
  | cluster fs =>
      cases h
      rfl
  | _ => cases h

/-- The channels that an element introduces, in the order of its outputs. -/
def seams (p : Process) (el : Element ChannelId Expr) : List Seam :=
  (el.outputs p).filterMap Outlet.seam?

/-- The instances of an element that routes or drops tokens. A split has its
    guard in front of its input, although the input is read first. -/
def routed (p : Process) (pipeline : Bool) (reads writes : List Wire) :
    Element ChannelId Expr → List Placement
  | .split guard input outputs =>
    [⟨.routing .split pipeline outputs.length [p.scope.widthOf guard, p.scope.widthOf input],
      reads.reverse, writes⟩]
  | .merge guard inputs out =>
    [⟨.routing .merge pipeline inputs.length [p.scope.widthOf guard, p.scope.widthOf out],
      reads, writes⟩]
  | .mixer inputs out =>
    [⟨.routing .mixer pipeline inputs.length [p.scope.widthOf out], reads, writes⟩]
  | .arbiter inputs out ctrl =>
    [⟨.routing .arbiter pipeline inputs.length [p.scope.widthOf out, p.scope.widthOf ctrl],
      reads, writes⟩]
  | .sink input => [⟨.sink (p.scope.widthOf input), reads, writes⟩]
  | .func _ | .cluster _ => []

/-- The call sites of an element whose reads are served by the wires `ws` and
    which introduces channels with the names `names`. -/
def placements (p : Process) (pipeline : Bool) (T : Bodies) (ws names : List String)
    (el : Element ChannelId Expr) : List Placement :=
  let reads := p.scope.servedWires el.reads ws
  let writes := connect (el.outputs p) names
  let own :=
    match el.members? with
    | some (_, funcs) => funcs.filterMap (Func.sourcePlacement? p.scope) ++
        (el.unit? p.scope).toList.map fun fu => ⟨.unit (fu.under T), reads, writes⟩
    | none => el.routed p pipeline reads writes
  own ++ List.zipWith Seam.placement (el.seams p) names

end Element

/-- The call sites of elements in order. -/
def placeAll (p : Process) (pipeline : Bool) (T : Bodies) :
    List (Element ChannelId Expr) → List String → List String → List Placement
  | [], _, _ => []
  | el :: els, ws, names =>
    el.placements p pipeline T (ws.take el.reads.length) (names.take (el.seams p).length) ++
      placeAll p pipeline T els (ws.drop el.reads.length) (names.drop (el.seams p).length)

namespace Process

/-- The channels that lowering a process introduces. -/
def seams (p : Process) : List Seam :=
  p.elements.flatMap (Element.seams p)

/-- The copies of a process with the channels that they read. -/
def copyPlacements (p : Process) : List Placement :=
  p.copied.map fun id => ⟨.copy (p.scope.widthOf id) (p.reads.count id), [p.scope.wire id], []⟩

/-- The call sites of the elements of a process. -/
def ownPlacements (p : Process) (pipeline : Bool) (T : Bodies) : List Placement :=
  placeAll p pipeline T p.elements (servingWires p.scope p.reads) p.coined.channels

/-- The call sites of a process: its copies, then those of its elements. -/
def placements (p : Process) (pipeline : Bool) (T : Bodies) : List Placement :=
  p.copyPlacements ++ p.ownPlacements pipeline T

end Process

section Connecting

/-- Every output has a wire. -/
theorem connect_length (outs : List Outlet) (names : List String) :
    (connect outs names).length = outs.length := by
  induction outs generalizing names with
  | nil => rfl
  | cons out outs ih =>
      cases out with
      | declared wire => exact congrArg (· + 1) (ih names)
      | fresh seam => exact congrArg (· + 1) (ih names.tail)

/-- The wires that serve reads have the names that serve them. -/
theorem servedWires_names (s : Scope) (reads : List ChannelId) (ws : List String)
    (h : reads.length = ws.length) : (s.servedWires reads ws).map Wire.name = ws := by
  unfold Scope.servedWires
  rw [List.map_zipWith, ← List.map_uncurry_zip_eq_zipWith]
  exact List.map_snd_zip (Nat.le_of_eq h.symm)

end Connecting

section Components

/-- What reads the channels that functions introduce are their buffers. -/
theorem seams_reader (s : Scope) (funcs : List (Func ChannelId Expr)) :
    ((funcs.filterMap (Func.drives? s)).filterMap Outlet.seam?).map Seam.reader
      = funcs.filterMap (Func.bufferComponent? s) := by
  rw [List.filterMap_filterMap, List.map_filterMap]
  -- Function by function: both sides ask for a buffer of positive depth.
  refine List.filterMap_congr fun f _ => ?_
  unfold Func.drives? Func.bufferComponent?
  cases f.expr.asConst? with
  | some value => rfl
  | none => cases f.output <;> cases Lowering.bufferDepth? f <;> rfl

/-- What reads the channels that a split introduces are its sinks. -/
theorem splitSeams_reader (s : Scope) (observed : ChannelId → Bool) (width : Nat)
    (outputs : List (Option ChannelId)) :
    ((Element.splitOutputs s observed width outputs).filterMap Outlet.seam?).map Seam.reader
      = (outputs.filter fun out => (out.filter observed).isNone).map fun _ => .sink width := by
  unfold Element.splitOutputs
  induction outputs with
  | nil => rfl
  | cons out outputs ih =>
      -- A sink stands behind every output that is not observed.
      cases hout : out.filter observed with
      | some id =>
          rw [List.filter_cons_of_neg (by simp [hout]), List.map_cons, hout]
          exact ih
      | none =>
          rw [List.filter_cons_of_pos (by simp [hout]), List.map_cons, hout]
          exact congrArg (_ :: ·) ih

/-- The sources of members are those among their components. -/
theorem sourcePlacements_component (s : Scope) (funcs : List (Func ChannelId Expr)) :
    (funcs.filterMap (Func.sourcePlacement? s)).map Placement.component
      = funcs.filterMap (Func.source? s) := by
  rw [List.map_filterMap]
  refine List.filterMap_congr fun f _ => ?_
  unfold Func.sourcePlacement? Func.source?
  cases f.expr.asConst? <;> cases f.output <;> rfl

/-- The call sites of an element are instances of its components. -/
theorem Element.placements_component (p : Process) (pipeline : Bool) (T : Bodies)
    (ws names : List String) (el : Element ChannelId Expr)
    (h : names.length = (el.seams p).length) :
    (el.placements p pipeline T ws names).map Placement.component
      = el.components p pipeline T := by
  -- The last call sites are those that read what is introduced.
  have hbehind : (List.zipWith Seam.placement (el.seams p) names).map Placement.component
      = (el.seams p).map Seam.reader := by
    conv_rhs => rw [← List.map_fst_zip (Nat.le_of_eq h.symm), List.map_map]
    rw [List.map_zipWith, ← List.map_uncurry_zip_eq_zipWith]
    rfl
  -- The outputs of an element with members are those of its functions.
  have hfuncs : ∀ clustered funcs, el.members? = some (clustered, funcs) →
      el.seams p = (funcs.filterMap (Func.drives? p.scope)).filterMap Outlet.seam? :=
    fun _ _ hmembers => congrArg _ (outputs_of_members p hmembers)
  unfold placements components
  cases hmembers : el.members? with
  | some pair =>
      rw [List.map_append, hbehind, hfuncs pair.1 pair.2 hmembers, seams_reader, List.map_append,
        sourcePlacements_component, List.map_map]
      rfl
  | none =>
      rw [List.map_append, hbehind]
      cases el with
      | split guard input outputs =>
          exact congrArg (_ :: ·) (splitSeams_reader p.scope p.observes _ outputs)
      | func f => cases hmembers
      | cluster fs => cases hmembers
      | _ => rfl

/-- So it is for elements in order. -/
theorem placeAll_component (p : Process) (pipeline : Bool) (T : Bodies)
    (els : List (Element ChannelId Expr)) (ws names : List String)
    (h : names.length = (els.flatMap (Element.seams p)).length) :
    (placeAll p pipeline T els ws names).map Placement.component
      = els.flatMap (Element.components p pipeline T) := by
  induction els generalizing ws names with
  | nil => rfl
  | cons el els ih =>
      rw [List.flatMap_cons, List.length_append] at h
      unfold placeAll
      rw [List.map_append,
        el.placements_component p pipeline T _ _ (by rw [List.length_take]; omega),
        ih _ _ (by rw [List.length_drop]; omega), List.flatMap_cons]

/-- The call sites of a process are instances of its components. -/
theorem Process.placements_component (p : Process) (pipeline : Bool) (T : Bodies)
    (h : p.coined.channels.length = p.seams.length) :
    (p.placements pipeline T).map Placement.component = p.components pipeline T := by
  unfold placements ownPlacements components
  rw [List.map_append, placeAll_component p pipeline T _ _ _ h]
  unfold copyPlacements copies copied
  rw [List.map_map]
  rfl

/-- An instance of a call site. -/
def Placement.IsFor (q : Placement) (inst : Instance) : Prop :=
  inst.key = q.component.key ∧ inst.ports = q.ports

/-- Instances with the keys and ports of call sites are for them. -/
theorem isFor_of_map_eq (qs : List Placement) (insts : List Instance)
    (hkeys : insts.map Instance.key = qs.map fun q => q.component.key)
    (hports : insts.map Instance.ports = qs.map Placement.ports) :
    List.Forall₂ Placement.IsFor qs insts := by
  induction qs generalizing insts with
  | nil =>
      rw [List.map_eq_nil_iff.mp hkeys]
      exact .nil
  | cons q qs ih =>
      cases insts with
      | nil => cases hkeys
      | cons inst insts =>
          -- Both lists have as many instances as there are call sites, and they match one by
          -- one.
          rcases List.cons.inj hkeys with ⟨hkey, hkeys⟩
          rcases List.cons.inj hports with ⟨hport, hports⟩
          exact .cons ⟨hkey, hport⟩ (ih insts hkeys hports)

end Components

end DataflowCircuit
