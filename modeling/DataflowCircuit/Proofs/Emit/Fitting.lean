import DataflowCircuit.Proofs.Emit.SharedTemplates
import DataflowCircuit.Proofs.Emit.Signatures
import DataflowCircuit.Proofs.Netlist.Wiring

/-!
# Instances Fit their Templates

An instance lists wires and a key lists numbers, both by position, and what the
positions mean is only said by the header of the template. This file shows that
both sides count alike: there is an argument for every parameter and a wire for
every port, wires that are read stand at inputs and wires that are written at
outputs, and the arguments of a unit give every port the width of the channel at
it.

The comparison is made twice. A call site is compared with the template of its
own component, kind by kind, which needs that the shapes of the elements were
checked: a split or a join without a data port has no header that could be read.
Then the template that was written under the name of an instance is compared
with that of its component. They print alike unless two bodies of units in the run
share a fingerprint. If two do, an instance can have more wires than its template
has ports, and the file ends with a run in which this happens.

## Main definitions

* `UnitBuilder.Measured`: The arguments of a unit have the widths of their
  channels.
* `Component.connected`: The ports that an instance connects.
* `Routing.arity`: How many inputs and outputs a routing element has.
* `Placement.Wired`: A call site that counts like its component.
* `Placement.Fits`: A call site that fits a text.

## Theorems

* `Element.unit?_measured`: The widths of a unit are those of its channels.
* `formed_of_mem_components`: The components of a process have headers.
* `wired_of_mem_placements`: Its call sites count like their components.
* `Placement.fits`: So they fit the templates of their components.
* `instances_fit_templates`: Instances fit the templates that are written.
* `colliding_units_misfit`: Unless fingerprints collide.
-/

namespace DataflowCircuit

section Units

/-- The width of the channel behind an output. -/
def Outlet.width : Outlet → Nat
  | .declared wire => wire.width
  | .fresh seam => seam.width

/-- A wire is as wide as the output it is connected to. -/
theorem connect_width (outs : List Outlet) (names : List String) :
    (connect outs names).map Wire.width = outs.map Outlet.width := by
  induction outs generalizing names with
  | nil => rfl
  | cons out outs ih =>
      cases out with
      | declared wire => exact congrArg (_ :: ·) (ih names)
      | fresh seam => exact congrArg (_ :: ·) (ih names.tail)

/-- A read is served with a wire of its width. -/
theorem servedWires_width (s : Scope) (reads : List ChannelId) (ws : List String)
    (h : ws.length = reads.length) :
    (s.servedWires reads ws).map Wire.width = reads.map s.widthOf := by
  unfold Scope.servedWires
  rw [List.map_zipWith, ← List.map_uncurry_zip_eq_zipWith]
  conv_rhs => rw [← List.map_fst_zip (Nat.le_of_eq h.symm), List.map_map]
  rfl

/-- The arguments of a unit have the widths of their channels, and its
    statements are numbered. -/
structure UnitBuilder.Measured (s : Scope) (b : UnitBuilder) : Prop where
  args : b.argWidths = b.args.map s.widthOf
  numbered : b.Numbered

/-- A new builder has nothing to measure. -/
theorem UnitBuilder.measured_empty (s : Scope) : UnitBuilder.empty.Measured s :=
  ⟨rfl, numbered_empty⟩

/-- A new argument has the width of its channel. -/
theorem UnitBuilder.measured_addArg (s : Scope) (b : UnitBuilder) (id : ChannelId) (w : Nat)
    (hw : s.width id = .ok w) (hb : b.Measured s) : (b.addArg id w).Measured s := by
  refine ⟨?_, hb.numbered⟩
  change b.argWidths ++ [w] = (b.args ++ [id]).map s.widthOf
  rw [List.map_append, ← hb.args, List.map_singleton, Scope.widthOf_of_ok s id w hw]

/-- The output of a member is as wide as its channel, buffered or not. -/
theorem drives_of_width (s : Scope) (f : Func ChannelId Expr) (out : ChannelId) (width : Nat)
    (hconst : f.expr.asConst? = none) (hout : f.output = some out)
    (hwidth : s.width out = .ok width) :
    ∃ o, Func.drives? s f = some o ∧ o.width = width := by
  have hw := Scope.widthOf_of_ok s out width hwidth
  rw [Func.drives?, hconst, hout]
  cases Lowering.bufferDepth? f with
  | none => exact ⟨_, rfl, hw⟩
  | some depth => exact ⟨_, rfl, hw⟩

/-- Members keep a builder measured, and add outputs with the widths of the
    channels behind them. -/
theorem gatherUnit_measured (s : Scope) (element : String) (clustered : Bool) (position : Nat)
    (fs : List (Func ChannelId Expr)) (b b' : UnitBuilder) (outs outs' : List UnitOutput)
    (h : Lowering.gatherUnit s element clustered position fs b outs = some (b', outs'))
    (hb : b.Measured s) :
    b'.Measured s ∧ b'.args = fs.foldl (fun refs f => f.expr.addReads refs) b.args ∧
      outs'.map UnitOutput.width
        = outs.map UnitOutput.width ++ (fs.filterMap (Func.drives? s)).map Outlet.width := by
  induction fs generalizing position b outs with
  | nil =>
      cases h
      exact ⟨hb, rfl, (List.append_nil _).symm⟩
  | cons f fs ih =>
      rcases Lowering.gatherUnit_cons h with
        ⟨v, hconst, h⟩ | ⟨out, width, result, b₁, hconst, hout, hwidth, hlower, h⟩
      · rcases ih _ b outs h hb with ⟨hmeasured, hargs, houts⟩
        have hdrives : Func.drives? s f = none := by
          rw [Func.drives?, hconst]
          rfl
        rw [List.foldl_cons, Expr.addReads_of_const f.expr v b.args hconst,
          List.filterMap_cons_none hdrives]
        exact ⟨hmeasured, hargs, houts⟩
      -- Only new arguments have to be measured, and statements keep their numbers.
      · have hkept : b₁.Measured s := Expr.lowerOutput_invariant s element
          (UnitBuilder.Measured s) (UnitBuilder.measured_addArg s)
          (fun b op w hb => ⟨hb.args, UnitBuilder.numbered_pushed b op.token op w hb.numbered⟩)
          f.expr width result b b₁ hlower hb
        have hadds : b₁.args = f.expr.addReads b.args :=
          Expr.lowerOutput_args s element f.expr width result b b₁ hlower
        rcases drives_of_width s f out width hconst hout hwidth with ⟨o, hdrives, howidth⟩
        rcases ih _ _ _ h ⟨hkept.args, hkept.numbered⟩ with ⟨hmeasured, hargs, houts⟩
        refine ⟨hmeasured, ?_, ?_⟩
        · rw [hargs, List.foldl_cons, ← hadds]
        · rw [houts, List.map_append, List.append_assoc, List.filterMap_cons_some hdrives,
            List.map_cons (f := Outlet.width), howidth]
          rfl

/-- The arguments of the unit of an element have the widths of the channels that
    it reads, its outputs those of the channels behind them, and its statements
    are numbered. -/
theorem Element.unit?_measured (p : Process) (el : Element ChannelId Expr) (fu : FunctionalUnit)
    (h : el.unit? p.scope = some fu) :
    fu.argWidths = el.reads.map p.scope.widthOf ∧
      fu.outputs.map UnitOutput.width = (el.outputs p).map Outlet.width ∧
      ∀ (i : Nat) (st : Statement), fu.statements[i]? = some st → st.index = i := by
  rcases Element.unit?_ok h with ⟨clustered, funcs, b, outs, hmembers, hgather, _, rfl⟩
  rcases gatherUnit_measured p.scope _ clustered 0 funcs .empty b [] outs hgather
    (UnitBuilder.measured_empty p.scope) with ⟨hmeasured, hargs, houts⟩
  refine ⟨?_, ?_, hmeasured.numbered⟩
  · have hreads : b.args = readsOfFuncs funcs := hargs
    rw [Element.reads_of_members hmembers, ← hreads]
    exact hmeasured.args
  · rw [Element.outputs_of_members p hmembers]
    exact houts

end Units

section Shapes

/-- Reads are counted only if every element has its shape. -/
theorem shapes_of_collectFrom (s : Scope) (els : List (Element ChannelId Expr))
    (uses uses' : UseCounts) (h : UseCounts.collectFrom s uses els = .ok uses') :
    ∀ el ∈ els, el.shapeFault? = none := by
  induction els generalizing uses with
  | nil => exact fun _ hel => absurd hel List.not_mem_nil
  | cons el els ih =>
      rw [UseCounts.collectFrom] at h
      rcases except_bind_ok_iff.mp h with ⟨u, hcheck, hrest⟩
      rw [List.forall_mem_cons]
      refine ⟨?_, ih _ hrest⟩
      unfold Element.check at hcheck
      cases hfault : el.shapeFault? with
      | none => rfl
      | some fault =>
          rw [hfault] at hcheck
          cases hcheck

/-- An element that routes tokens has data ports. -/
theorem formed_of_routes (p : Process) (pipeline : Bool) (el : Element ChannelId Expr)
    (hshape : el.shapeFault? = none) : ∀ c ∈ el.routes p pipeline, c.Formed := by
  -- The check of the shape refuses a join without inputs.
  have hjoin : ∀ kind n, inputsFault? kind n = none → n ≠ 0 := by
    intro kind n hn hzero
    rw [hzero] at hn
    cases hn
  cases el with
  | split guard input outputs =>
      simp only [Element.routes, List.forall_mem_cons, List.forall_mem_map]
      refine ⟨⟨fun hzero => ?_, rfl⟩, fun _ _ => trivial⟩
      rw [Element.shapeFault?, hzero] at hshape
      cases hshape
  | merge guard inputs out => exact List.forall_mem_singleton.mpr ⟨hjoin _ _ hshape, rfl⟩
  | mixer inputs out => exact List.forall_mem_singleton.mpr ⟨hjoin _ _ hshape, rfl⟩
  | arbiter inputs out ctrl => exact List.forall_mem_singleton.mpr ⟨hjoin _ _ hshape, rfl⟩
  | sink input => exact List.forall_mem_singleton.mpr trivial
  | func f => exact fun _ hc => absurd hc List.not_mem_nil
  | cluster funcs => exact fun _ hc => absurd hc List.not_mem_nil

/-- The components of a process that was lowered have headers. -/
theorem formed_of_mem_components (p : Process) (s s' : Session) (out : LoweredProcess)
    (h : lowerProcess p s = .ok out s') (pipeline : Bool) (T : Bodies) :
    ∀ c ∈ p.components pipeline T, c.Formed := by
  rcases (lowerProcess_ok_iff p s s' out).mp h with ⟨uses, _, _, _, huses, _⟩
  have hshapes := shapes_of_collectFrom p.scope p.elements [] uses huses
  intro c hc
  rcases List.mem_append.mp hc with hc | hc
  · rcases List.mem_map.mp hc with ⟨id, _, rfl⟩
    trivial
  · rcases List.mem_flatMap.mp hc with ⟨el, hel, hc⟩
    unfold Element.components at hc
    cases hmembers : el.members? with
    | none =>
        rw [hmembers] at hc
        exact formed_of_routes p pipeline el (hshapes el hel) c hc
    | some pair =>
        rw [hmembers] at hc
        -- Sources, units and buffers always have one.
        cases c with
        | routing kind pipeline ports widths =>
            simp only [List.mem_append, List.mem_filterMap, List.mem_map, Func.source?,
              Func.bufferComponent?, Option.bind_eq_bind, Option.bind_eq_some_iff] at hc
            rcases hc with (⟨_, _, _, _, _, _, hc⟩ | ⟨_, _, hc⟩) | ⟨_, _, hc⟩
            · cases hc
            · cases hc
            · split at hc
              · cases hc
              · simp only [Option.bind_eq_some_iff] at hc
                rcases hc with ⟨_, _, _, _, hc⟩
                cases hc
        | _ => trivial

end Shapes

section Wires

/-- The ports that an instance connects. A copy connects its input; its outputs
    are used under its own name. -/
def Component.connected (c : Component) (sig : Signature) : List PortDef :=
  match c with
  | .copy _ _ => sig.ports.filter fun port => port.name = "in"
  | _ => sig.ports

/-- The wires that are read stand at inputs and those that are written at
    outputs. -/
def Placement.Directed (q : Placement) (sig : Signature) : Prop :=
  (q.component.connected sig).map PortDef.direction
    = List.replicate q.reads.length .input ++ List.replicate q.writes.length .output

/-- A call site that counts like its component: its wires are as many as the ports
    of the template, and the wires of a unit have the widths of its arguments and
    outputs. -/
structure Placement.Wired (q : Placement) : Prop where
  directed : q.Directed q.component.template.signature
  widths : ∀ fu, q.component = .unit fu →
    fu.argWidths ++ fu.outputs.map UnitOutput.width = (q.reads ++ q.writes).map Wire.width
  numbered : ∀ fu, q.component = .unit fu → ∀ (i : Nat) (st : Statement),
    fu.statements[i]? = some st → st.index = i

/-- The instance of a unit has a wire for every argument and every output. -/
theorem Placement.Wired.ports_length {q : Placement} (h : q.Wired) (fu : FunctionalUnit)
    (hfu : q.component = .unit fu) :
    q.ports.length = fu.argWidths.length + fu.outputs.length := by
  have hlength := congrArg List.length (h.widths fu hfu)
  rw [List.length_append, List.length_map, List.length_map] at hlength
  rw [Placement.ports, List.length_map, ← hlength]

/-- Outside the units only the directions count. -/
theorem wired_of_directed (q : Placement) (h : ∀ fu, q.component ≠ .unit fu)
    (hdirected : q.Directed q.component.template.signature) : q.Wired :=
  ⟨hdirected, fun fu hfu => absurd hfu (h fu), fun fu hfu => absurd hfu (h fu)⟩

/-- Numbered ports all have one direction. -/
theorem dataPorts_direction (direction : Direction) (n : Nat) (width name : Nat → String)
    (spaced : Bool) :
    (((List.range n).map fun i => dataPort direction (width i) (name i) spaced).map
      PrintedPort.port).map PortDef.direction = List.replicate n direction := by
  rw [List.map_map, List.map_map]
  exact (List.map_const' ..).trans (by rw [List.length_range])

/-- The unit of an element is wired. -/
theorem wired_unit (p : Process) (el : Element ChannelId Expr) (fu : FunctionalUnit) (T : Bodies)
    (h : el.unit? p.scope = some fu) (ws names : List String) (hws : ws.length = el.reads.length) :
    Placement.Wired ⟨.unit (fu.under T), p.scope.servedWires el.reads ws,
      connect (el.outputs p) names⟩ := by
  rcases el.unit?_measured p fu h with ⟨hargs, houts, hnumbered⟩
  have hreads := servedWires_width p.scope el.reads ws hws
  have hwrites := connect_width (el.outputs p) names
  refine ⟨?_, fun gu hgu => ?_, fun gu hgu => ?_⟩
  -- Wires are as many as widths on both sides.
  · have hin := congrArg List.length (hargs.trans hreads.symm)
    have hout := congrArg List.length (houts.trans hwrites.symm)
    rw [List.length_map] at hin hout
    rw [List.length_map] at hout
    unfold Placement.Directed Component.connected Component.template Template.signature
      TemplateBody.printedPorts
    dsimp only
    rw [List.map_append, List.map_append, dataPorts_direction, dataPorts_direction, ← hin, ← hout]
    rfl
  · cases hgu
    rw [List.map_append, hreads, hwrites, ← hargs, ← houts]
    rfl
  · cases hgu
    exact hnumbered

/-- What reads an introduced channel is a sink, which drives nothing, or a buffer,
    which drives one channel. -/
theorem wired_seam (p : Process) (el : Element ChannelId Expr) (seam : Seam)
    (h : seam ∈ el.seams p) (name : String) : (seam.placement name).Wired := by
  -- A function and a cluster introduce channels for their buffers only.
  have hfuncs : ∀ funcs : List (Func ChannelId Expr),
      seam ∈ (funcs.filterMap (Func.drives? p.scope)).filterMap Outlet.seam? →
        (seam.placement name).Wired := by
    intro funcs hmem
    rcases List.mem_filterMap.mp hmem with ⟨o, ho, hseam⟩
    rcases List.mem_filterMap.mp ho with ⟨f, _, hf⟩
    unfold Func.drives? at hf
    split at hf
    · cases hf
    · rcases Option.map_eq_some_iff.mp hf with ⟨out, _, rfl⟩
      cases hdepth : Lowering.bufferDepth? f with
      | none =>
          rw [hdepth] at hseam
          cases hseam
      | some depth =>
          rw [hdepth] at hseam
          cases hseam
          exact wired_of_directed _ (fun _ hfu => nomatch hfu) rfl
  cases el with
  | split guard input outputs =>
      rcases List.mem_filterMap.mp h with ⟨o, ho, hseam⟩
      rcases List.mem_map.mp ho with ⟨out, _, rfl⟩
      cases hfilter : out.filter p.observes with
      | some id =>
          rw [hfilter] at hseam
          cases hseam
      | none =>
          rw [hfilter] at hseam
          cases hseam
          exact wired_of_directed _ (fun _ hfu => nomatch hfu) rfl
  | func f => exact hfuncs [f] h
  | cluster funcs => exact hfuncs funcs h
  | _ => exact absurd h List.not_mem_nil

/-- How many inputs and outputs an element with `n` data ports has. -/
def Routing.arity (n : Nat) : Routing → Nat × Nat
  | .split => (2, n)
  | .merge => (n + 1, 1)
  | .mixer => (n, 1)
  | .arbiter => (n, 2)

/-- The template of an element that routes tokens has its inputs in front. -/
theorem Routing.directions (kind : Routing) (n : Nat) :
    ((kind.body n).printedPorts.map PrintedPort.port).map PortDef.direction
      = List.replicate (kind.arity n).1 .input ++ List.replicate (kind.arity n).2 .output := by
  cases kind with
  | split =>
      simp only [Routing.body, TemplateBody.printedPorts, List.map_append,
        dataPorts_direction .output n (fun _ => "W2")]
      rfl
  | merge =>
      simp only [Routing.body, TemplateBody.printedPorts, List.map_append,
        dataPorts_direction .input n (fun _ => "W2")]
      -- A merge has its guard in front of its inputs.
      rw [← List.append_assoc]
      rfl
  | mixer =>
      simp only [Routing.body, TemplateBody.printedPorts, List.map_append,
        dataPorts_direction .input n (fun _ => "W")]
      rfl
  | arbiter =>
      simp only [Routing.body, TemplateBody.printedPorts, List.map_append,
        dataPorts_direction .input n (fun _ => "W")]
      rfl

/-- An element that routes tokens is wired if it has as many wires as ports. -/
theorem wired_routing (kind : Routing) (pipeline : Bool) (n : Nat) (widths : List Nat)
    (reads writes : List Wire) (hreads : reads.length = (kind.arity n).1)
    (hwrites : writes.length = (kind.arity n).2) :
    Placement.Wired ⟨.routing kind pipeline n widths, reads, writes⟩ := by
  refine wired_of_directed _ (fun _ hfu => nomatch hfu) ?_
  unfold Placement.Directed
  rw [hreads, hwrites]
  exact kind.directions n

/-- The instance of an element that routes or drops tokens is wired. -/
theorem wired_routed (p : Process) (pipeline : Bool) (el : Element ChannelId Expr)
    (ws names : List String) (hws : ws.length = el.reads.length) :
    ∀ q ∈ el.routed p pipeline (p.scope.servedWires el.reads ws)
      (connect (el.outputs p) names), q.Wired := by
  have hreads : (p.scope.servedWires el.reads ws).length = el.reads.length := by
    rw [← List.length_map (f := Wire.width), servedWires_width p.scope el.reads ws hws,
      List.length_map]
  have hwrites := connect_length (el.outputs p) names
  cases el with
  | func f => exact fun _ hq => absurd hq List.not_mem_nil
  | cluster funcs => exact fun _ hq => absurd hq List.not_mem_nil
  | split guard input outputs =>
      -- A split reads its input before its guard and lists the guard first.
      refine List.forall_mem_singleton.mpr (wired_routing _ _ _ _ _ _ ?_ ?_)
      · exact List.length_reverse.trans hreads
      · exact hwrites.trans (List.length_map ..)
  | merge guard inputs out =>
      exact List.forall_mem_singleton.mpr (wired_routing _ _ _ _ _ _ hreads hwrites)
  | mixer inputs out =>
      exact List.forall_mem_singleton.mpr (wired_routing _ _ _ _ _ _ hreads hwrites)
  | arbiter inputs out ctrl =>
      exact List.forall_mem_singleton.mpr (wired_routing _ _ _ _ _ _ hreads hwrites)
  | sink input =>
      refine List.forall_mem_singleton.mpr (wired_of_directed _ (fun _ hfu => nomatch hfu) ?_)
      unfold Placement.Directed
      dsimp only
      rw [hreads, hwrites]
      rfl

/-- The call sites of an element are wired. -/
theorem wired_of_mem_element (p : Process) (pipeline : Bool) (T : Bodies)
    (el : Element ChannelId Expr) (ws names : List String) (hws : ws.length = el.reads.length) :
    ∀ q ∈ el.placements p pipeline T ws names, q.Wired := by
  intro q hq
  unfold Element.placements at hq
  rcases List.mem_append.mp hq with hq | hq
  · cases hmembers : el.members? with
    | none =>
        rw [hmembers] at hq
        exact wired_routed p pipeline el ws names hws q hq
    | some pair =>
        rw [hmembers] at hq
        rcases List.mem_append.mp hq with hq | hq
        · rcases List.mem_filterMap.mp hq with ⟨f, _, hf⟩
          unfold Func.sourcePlacement? Func.source? at hf
          simp only [Option.bind_eq_bind, Option.bind_eq_some_iff] at hf
          rcases hf with ⟨c, ⟨value, _, out, _, hc⟩, out', _, hq⟩
          cases hc
          cases hq
          exact wired_of_directed _ (fun _ hfu => nomatch hfu) rfl
        · rcases List.mem_map.mp hq with ⟨fu, hfu, rfl⟩
          exact wired_unit p el fu T (Option.mem_toList.mp hfu) ws names hws
  · rw [← List.map_uncurry_zip_eq_zipWith] at hq
    rcases List.mem_map.mp hq with ⟨⟨seam, name⟩, hmem, rfl⟩
    exact wired_seam p el seam (List.of_mem_zip hmem).1 name

/-- The call sites of elements in a row are wired. -/
theorem wired_of_mem_placeAll (p : Process) (pipeline : Bool) (T : Bodies)
    (els : List (Element ChannelId Expr)) (ws names : List String)
    (hws : ws.length = (els.flatMap Element.reads).length) :
    ∀ q ∈ placeAll p pipeline T els ws names, q.Wired := by
  induction els generalizing ws names with
  | nil => exact fun _ hq => absurd hq List.not_mem_nil
  | cons el els ih =>
      rw [List.flatMap_cons, List.length_append] at hws
      unfold placeAll
      rw [List.forall_mem_append]
      exact ⟨wired_of_mem_element p pipeline T el _ _ (by rw [List.length_take]; omega),
        ih _ _ (by rw [List.length_drop]; omega)⟩

/-- The call sites of a process count like their components. -/
theorem wired_of_mem_placements (p : Process) (pipeline : Bool) (T : Bodies) :
    ∀ q ∈ p.placements pipeline T, q.Wired := by
  unfold Process.placements
  rw [List.forall_mem_append]
  refine ⟨?_, wired_of_mem_placeAll p pipeline T p.elements _ _ List.length_mapIdx⟩
  -- Of the ports of a copy only the input is connected.
  have hinput : (Template.signature ⟨"copy", .copy⟩).ports.filter (fun port => port.name = "in")
      = [⟨.input, "W", "in"⟩] := by decide
  unfold Process.copyPlacements
  rw [List.forall_mem_map]
  exact fun id _ => wired_of_directed _ (fun _ hfu => nomatch hfu)
    (congrArg (List.map PortDef.direction) hinput)

end Wires

section Fitting

/-- A call site fits the text of a template with the header `sig` if its key is
    `key`: there is an argument for every parameter and a wire for every port, and
    the wires that are read stand at inputs. For a unit, the arguments give each
    port the width of the channel at it, and each variable of a result the width
    of its statement, unless it is a truth value. -/
structure Placement.Fits (q : Placement) (key text : String) (sig : Signature) : Prop where
  read : Signature.read? text = some sig
  params : sig.params.length = (argumentsOf key).length
  directed : q.Directed sig
  widths : ∀ fu, q.component = .unit fu →
    sig.ports.map (fun port => sig.value? (argumentsOf key) port.width)
      = (q.reads ++ q.writes).map fun wire => some wire.width
  results : ∀ fu, q.component = .unit fu → ∀ (k : Nat) (st : Statement),
    fu.statements[k]? = some st → ∃ v, (declaredLocals text)[fu.argWidths.length + k]? = some v ∧
      v.name = s!"res{k}" ∧
        v.width.map (sig.value? (argumentsOf key))
          = if st.isBool then none else some (some st.width)

/-- The ports of a unit have the widths of its arguments and outputs. -/
theorem FunctionalUnit.ports_value (fu : FunctionalUnit) (name : String) :
    (Template.signature ⟨name, .func fu⟩).ports.map (fun port =>
        (Template.signature ⟨name, .func fu⟩).value? fu.params port.width)
      = (fu.argWidths ++ fu.outputs.map UnitOutput.width).map some := by
  have hports : (Template.signature ⟨name, .func fu⟩).ports.map PortDef.width
      = (List.range (fu.argWidths.length + fu.outputs.length)).map fun i => s!"W{i}" := by
    rw [List.range_add, List.map_append, List.map_map]
    unfold Template.signature TemplateBody.printedPorts
    dsimp only
    rw [List.map_append, List.map_append, List.map_map, List.map_map, List.map_map, List.map_map]
    rfl
  have hlength : (fu.argWidths ++ fu.outputs.map UnitOutput.width).length
      = fu.argWidths.length + fu.outputs.length := by
    rw [List.length_append, List.length_map]
  have hcomp := List.map_map (f := PortDef.width)
    (g := (Template.signature ⟨name, .func fu⟩).value? fu.params)
    (l := (Template.signature ⟨name, .func fu⟩).ports)
  rw [hports] at hcomp
  -- Ports are numbered through with the inputs first, and so are parameters.
  refine hcomp.symm.trans (List.ext_getElem? fun i => ?_)
  rw [List.map_map, List.getElem?_map, List.getElem?_map]
  by_cases hi : i < fu.argWidths.length + fu.outputs.length
  · have hw : fu.params[i]? = (fu.argWidths ++ fu.outputs.map UnitOutput.width)[i]? := by
      unfold FunctionalUnit.params
      exact List.getElem?_append_left (hlength ▸ hi)
    have hsome := List.getElem?_eq_getElem (l := fu.argWidths ++ fu.outputs.map UnitOutput.width)
      (hlength ▸ hi)
    rw [List.getElem?_range hi, hsome]
    exact congrArg some (value?_func fu name i _ (hw.trans hsome))
  · rw [List.getElem?_eq_none (by rw [List.length_range]; omega),
      List.getElem?_eq_none (by rw [hlength]; omega)]
    rfl

/-- The variables of the results of a unit have the widths of its statements. -/
theorem FunctionalUnit.locals_value (fu : FunctionalUnit) (name : String)
    (hnumbered : ∀ (i : Nat) (st : Statement), fu.statements[i]? = some st → st.index = i)
    (k : Nat) (st : Statement) (h : fu.statements[k]? = some st) :
    ∃ v, fu.locals[fu.argWidths.length + k]? = some v ∧ v.name = s!"res{k}" ∧
      v.width.map ((Template.signature ⟨name, .func fu⟩).value? fu.params)
        = if st.isBool then none else some (some st.width) := by
  have hindex := hnumbered k st h
  refine ⟨⟨s!"res{st.index}", if st.isBool then none else some s!"W{fu.resultParameter st}"⟩,
    ?_, by rw [hindex], ?_⟩
  · unfold locals
    rw [List.getElem?_append_right (by rw [List.length_map, List.length_range]; omega),
      List.length_map, List.length_range, Nat.add_sub_cancel_left, List.getElem?_map, h]
    rfl
  · -- The parameters of results follow those of arguments and outputs.
    have hparam : fu.params[fu.resultParameter st]? = some st.width := by
      unfold params resultParameter
      rw [List.getElem?_append_right (by rw [List.length_append, List.length_map]; omega),
        List.length_append, List.length_map, Nat.add_sub_cancel_left, List.getElem?_map, hindex, h]
      rfl
    cases st.isBool with
    | true => rfl
    | false => exact congrArg some (value?_func fu name _ _ hparam)

/-- A call site fits the template of its component. -/
theorem Placement.fits (q : Placement) (hwired : q.Wired) (hspelled : q.component.Spelled)
    (hformed : q.component.Formed) :
    q.Fits q.component.key q.component.template.render q.component.template.signature := by
  rcases q.component.params_length hspelled hformed with ⟨hne, hlength⟩
  -- The key is read as the parameters that it was written with.
  have hargs := q.component.argumentsOf_key hspelled hne
  refine ⟨q.component.read_render hspelled hformed, ?_, hwired.directed, fun fu hfu => ?_,
    fun fu hfu k st hst => ?_⟩
  · rw [hargs, hlength]
    rfl
  · have hwidths := hwired.widths fu hfu
    rw [hargs, hfu]
    have hvalues := fu.ports_value fu.name
    rw [hwidths, List.map_map] at hvalues
    exact hvalues
  · rcases fu.locals_value fu.name (hwired.numbered fu hfu) k st hst with ⟨v, hv, hname, hwidth⟩
    rw [hfu] at hspelled
    refine ⟨v, ?_, hname, ?_⟩
    · have hlocals : declaredLocals (Component.unit fu).template.render = fu.locals :=
        fu.locals_render hspelled
      rw [hfu, hlocals]
      exact hv
    · rw [hargs, hfu]
      exact hwidth

end Fitting

section Runs

variable {ps : Program} {s s' : Session} {outs : List LoweredProcess}

/-- The template that an instance names was written when its process has been. -/
theorem template_of_site (hfresh : s.cache = .empty) (h : lowerAll ps s = .ok outs s') (k : Nat)
    (out : LoweredProcess) (hout : outs[k]? = some out) (inst : Instance)
    (hinst : inst ∈ out.sites) :
    ∃ template ∈ (outs.take (k + 1)).flatMap LoweredProcess.templates,
      template.name = templateOf inst.key := by
  rcases lowered_upto ps s s' outs h k out hout with
    ⟨p, t, before, own, _, hupto, hsites, hcomponents⟩
  have hkey : inst.key ∈ own.map Call.key := by
    rw [← hsites]
    exact List.mem_map_of_mem hinst
  rcases List.mem_map.mp hkey with ⟨call, hcall, hcallkey⟩
  have hspelled : call.component.Spelled := by
    refine spelled_of_mem_components p s.pipeline s'.cache.bodies _ ?_
    rw [← hcomponents]
    exact List.mem_map_of_mem hcall
  refine List.mem_map.mp ((hupto.mem_templates hfresh _).mpr
    ⟨call, List.mem_append_right _ hcall, ?_⟩)
  rw [← hcallkey]
  exact (call.component.templateOf_key hspelled).symm

/-- Without a collision, what is written under the name of the template of a
    component prints like it. -/
theorem render_of_template (hdistinct : DistinctFingerprints (ps.flatMap Process.units))
    (h : lowerAll ps s = .ok outs s') (p : Process) (hp : p ∈ ps) (c : Component)
    (hc : c ∈ p.components s.pipeline s'.cache.bodies) (template : Template)
    (htemplate : template ∈ outs.flatMap LoweredProcess.templates)
    (hname : template.name = c.template.name) : template.render = c.template.render := by
  rcases lowerAll_emits ps s s' outs h with ⟨calls, hemitted, hcalls⟩
  have hall := hcalls s'.cache.bodies (Bodies.Keeps.refl _)
  rw [hemitted.templates] at htemplate
  rcases List.mem_map.mp (mem_of_mem_firsts Template.name _ _ template htemplate) with
    ⟨first, hfirst, rfl⟩
  rw [first.render_eq]
  refine render_eq_of_name (lowerAll_ok ps s s' outs h).names hdistinct s'.cache.bodies s.pipeline
    _ _ ?_ (List.mem_flatMap.mpr ⟨p, hp, hc⟩) ?_
  · rw [← hall]
    exact List.mem_map_of_mem hfirst
  · rw [← first.name_eq, hname]

/-- The copies and instances of a process of a run are for its call sites, and these
    are for its components. -/
theorem sites_isFor (h : lowerAll ps s = .ok outs s') (k : Nat) (p : Process)
    (out : LoweredProcess) (hp : ps[k]? = some p) (hout : outs[k]? = some out) :
    List.Forall₂ Placement.IsFor (p.placements s.pipeline s'.cache.bodies) out.sites ∧
      (p.placements s.pipeline s'.cache.bodies).map Placement.component
        = p.components s.pipeline s'.cache.bodies := by
  rcases (lowerAll_ok ps s s' outs h).parts k p out hp hout with ⟨t, t', hrun, hpipeline, hkeeps⟩
  have hplaced := lowerProcess_placed p t t' out hrun s'.cache.bodies hkeeps
  have hsites := hplaced.sites
  rw [hpipeline] at hsites
  exact ⟨hsites, p.placements_component s.pipeline s'.cache.bodies hplaced.length⟩

/-- A process of an element and a cluster is lowered in a session without costs as
    soon as the element is lowered, the members of the cluster are gathered without
    buffers, and its reads are served. -/
theorem exists_lowerProcess_ok (p : Process) (s : Session) (uses : UseCounts) (plan : CopyPlan)
    (first : Element ChannelId Expr) (funcs : List (Func ChannelId Expr))
    (sources : List (ChannelId × String)) (ms : Lowering.Members) (l : Lowering)
    (huses : UseCounts.collect p = .ok uses) (hplan : CopyPlan.plan p.scope uses = .ok plan)
    (hcopies : plan.copies = []) (helements : p.elements = [first, .cluster funcs])
    (hrun : (do
      Lowering.lowerElement ⟨p, uses⟩ first
      let sources ← Lowering.resolveReads (.cluster funcs)
      let ms ← Lowering.addMembers ⟨p, uses⟩ ((Element.cluster funcs).print p.scope) true 0 funcs
        .empty
      return (sources, ms, ← get) : Lowering.Step _).run'
        ⟨s, plan, .ofNames p.scope.names, p.declarations⟩ = some (sources, ms, l))
    (hbuffers : ms.buffers = []) (hmetrics : l.session.metrics = [])
    (hnone : l.session.estimator = none) (inputs : List String)
    (hserved : traverseList (Lowering.sourceOf p.scope sources) ms.builder.args = .ok inputs) :
    ∃ out s', lowerProcess p s = .ok out s' := by
  rcases run'_eq_some_iff.mp hrun with ⟨l₃, hrun⟩
  rcases bind_ok_iff.mp hrun with ⟨u, l₁, hfirst, hrun⟩
  rcases bind_ok_iff.mp hrun with ⟨_, l₂, hreads, hrun⟩
  rcases bind_ok_iff.mp hrun with ⟨_, _, hmembers, hrun⟩
  rcases bind_ok_iff.mp hrun with ⟨_, _, hget, hrun⟩
  rcases get_ok_iff.mp hget with ⟨rfl, rfl⟩
  rcases pure_ok_iff.mp hrun with ⟨hresult, rfl⟩
  cases hresult
  -- From the state with the members the second unit is written, and nothing is left to do.
  rcases Lowering.lowerFuncs_unpriced ⟨p, uses⟩ _ true funcs sources ms inputs l₁ l₂ _ hreads
    hmembers hbuffers hmetrics hnone hserved with ⟨l', hsecond⟩
  refine ⟨l'.out, l'.session, (lowerProcess_ok_iff _ _ _ _).mpr
    ⟨uses, plan, _, l', huses, hplan, by rw [hcopies]; rfl, ?_, rfl, rfl⟩⟩
  rw [helements]
  exact bind_ok_iff.mpr ⟨u, l₁, hfirst, bind_ok_iff.mpr ⟨(), l', hsecond, rfl⟩⟩

end Runs

/-- Instances fit their templates. In a run with a fresh cache in which no two
    bodies of units share a fingerprint, the copies and instances of a process
    are, in order, for its call sites; a template with the name that an instance
    gives has been written when its process has; and the call site fits the text
    of every template of that name. -/
theorem instances_fit_templates (ps : Program) (s s' : Session) (outs : List LoweredProcess)
    (hfresh : s.cache = .empty) (hdistinct : DistinctFingerprints (ps.flatMap Process.units))
    (h : lowerAll ps s = .ok outs s') :
    ∀ (k : Nat) (p : Process) (out : LoweredProcess), ps[k]? = some p → outs[k]? = some out →
      List.Forall₂ (fun (q : Placement) (inst : Instance) => q.IsFor inst ∧
          (∃ template ∈ (outs.take (k + 1)).flatMap LoweredProcess.templates,
            template.name = templateOf inst.key) ∧
          ∀ template ∈ outs.flatMap LoweredProcess.templates,
            template.name = templateOf inst.key →
              ∃ sig, q.Fits inst.key template.render sig)
        (p.placements s.pipeline s'.cache.bodies) out.sites := by
  intro k p out hp hout
  rcases (lowerAll_ok ps s s' outs h).parts k p out hp hout with ⟨t, t', hrun, _⟩
  rcases sites_isFor h k p out hp hout with ⟨hsites, hcomponents⟩
  refine List.forall₂_iff_zip.mpr ⟨hsites.length_eq, fun {q inst} hmem => ?_⟩
  have hfor := (List.forall₂_iff_zip.mp hsites).2 hmem
  rcases List.of_mem_zip hmem with ⟨hq, hinst⟩
  have hc : q.component ∈ p.components s.pipeline s'.cache.bodies := by
    rw [← hcomponents]
    exact List.mem_map_of_mem hq
  have hspelled := spelled_of_mem_components p s.pipeline s'.cache.bodies _ hc
  have hformed := formed_of_mem_components p t t' out hrun s.pipeline s'.cache.bodies _ hc
  refine ⟨hfor, template_of_site hfresh h k out hout inst hinst, fun template htemplate hname => ?_⟩
  -- What is written under the name may be there for another call site.
  have hrender := render_of_template hdistinct h p (List.mem_of_getElem? hp) q.component hc template
    htemplate (by rw [hname, hfor.1, q.component.templateOf_key hspelled])
  rw [hrender, hfor.1]
  exact ⟨_, q.fits (wired_of_mem_placements p s.pipeline s'.cache.bodies q hq) hspelled hformed⟩

/-- A process with a copy, a cluster of a sum and a comparison, a split with an
    output that is not connected, and a source. -/
theorem instances_of_five_kinds_fit :
    let p : Process := ⟨"p", ⟨[⟨"a", .int 8, .port .input, 0⟩, ⟨"b", .int 4, .port .input, 1⟩,
        ⟨"g", .bool, .port .input, 2⟩, ⟨"x", .int 9, .internal, 3⟩,
        ⟨"k", .int 8, .port .output, 4⟩, ⟨"y", .int 9, .port .output, 5⟩,
        ⟨"l", .bool, .port .output, 6⟩, ⟨"m", .int 8, .port .output, 7⟩]⟩,
      [.cluster [⟨.binary .add (.var 0) (.var 1), none, some 3⟩,
          ⟨.binary .lt (.var 0) (.var 1), none, some 6⟩],
        .split 2 3 [some 5, none], .func ⟨.const 7, none, some 4⟩, .func ⟨.var 0, none, some 7⟩]⟩
    let s : Session := { Session.start false .empty with
      metrics := [("copy_8_2_", ⟨1, 1, 1, 1⟩), ("source_7_8_", ⟨1, 1, 1, 1⟩),
        ("unpipe_split2_1_9_", ⟨1, 1, 1, 1⟩), ("sink_9_", ⟨1, 1, 1, 1⟩)] }
    ∃ out s', s.cache = .empty ∧ DistinctFingerprints ([p].flatMap Process.units) ∧
      lowerAll [p] s = .ok [out] s' ∧
      out.sites.map (fun inst => (inst.key, inst.ports)) = [("copy<8,2>", ["a"]),
        ("func_0add1_9_p0_0lt1_1_p1<8,4,9,1,9,1>", ["acopy.out[0]", "b", "x", "l"]),
        ("unpipe_split2<1,9>", ["g", "x", "y", "sink0"]), ("sink<9>", ["sink0"]),
        ("source<7,8>", ["k"]), ("func_port_8<8,8,8>", ["acopy.out[1]", "m"])] ∧
      List.Forall₂ (fun (q : Placement) (inst : Instance) => q.IsFor inst ∧
        ∃ template ∈ out.templates, template.name = templateOf inst.key ∧
          ∃ sig, q.Fits inst.key template.render sig)
        (p.placements s.pipeline s'.cache.bodies) out.sites := by
  intro p s
  have hrun : (match lowerAll [p] s with
      | .ok outs _ => outs.map fun out => out.sites.map (fun inst => (inst.key, inst.ports))
      | .error _ _ => []) = [[("copy<8,2>", ["a"]),
        ("func_0add1_9_p0_0lt1_1_p1<8,4,9,1,9,1>", ["acopy.out[0]", "b", "x", "l"]),
        ("unpipe_split2<1,9>", ["g", "x", "y", "sink0"]), ("sink<9>", ["sink0"]),
        ("source<7,8>", ["k"]), ("func_port_8<8,8,8>", ["acopy.out[1]", "m"])]] := by
    decide +kernel
  have hdistinct : DistinctFingerprints ([p].flatMap Process.units) := by decide +kernel
  cases hlower : lowerAll [p] s with
  | error e s' =>
      rw [hlower] at hrun
      cases hrun
  | ok outs s' =>
      rw [hlower] at hrun
      -- From here on the theorem is applied to the one process.
      rcases List.map_eq_singleton_iff.mp hrun with ⟨out, rfl, hsites⟩
      refine ⟨out, s', rfl, hdistinct, rfl, hsites, ?_⟩
      refine (instances_fit_templates [p] s s' [out] rfl hdistinct hlower 0 p out rfl rfl).imp ?_
      rintro q inst ⟨hfor, ⟨template, htemplate, hname⟩, hfits⟩
      refine ⟨hfor, template, ?_, hname, hfits template htemplate hname⟩
      simpa using htemplate

/-- Clusters that forward five and eight channels to sixteen outputs each, so that
    their units have the same name and different bodies. The fingerprints of the
    bodies are equal. -/
def collidingClusters : Process :=
  let forwards (first last : Nat) (pattern : List Nat) : Element ChannelId Expr :=
    .cluster (pattern.zipIdx.map fun (a, i) => ⟨.var (first + a), none, some (last + i)⟩)
  ⟨"p", ⟨(List.range 13).map (fun i => ⟨s!"a{i}", .int 8, .port .input, i⟩) ++
      (List.range 32).map fun i => ⟨s!"y{i}", .int 8, .port .output, 13 + i⟩⟩,
    [forwards 0 13 [0, 1, 0, 2, 1, 0, 2, 2, 3, 1, 3, 4, 1, 4, 1, 4],
      forwards 5 29 [0, 1, 0, 2, 3, 4, 2, 0, 4, 4, 0, 5, 0, 6, 2, 7]]⟩

/-- The clusters are lowered without a fault. The run is only evaluated up to the
    second unit, so that no bodies are compared. -/
theorem collidingClusters_lowered :
    ∃ out s', lowerAll [collidingClusters] (Session.start false .empty) = .ok [out] s' := by
  have hgathered : ∀ first funcs, collidingClusters.elements = [first, .cluster funcs] →
      (UseCounts.collect collidingClusters).toOption.any (fun uses =>
        (CopyPlan.plan collidingClusters.scope uses).toOption.any fun plan =>
          plan.copies.isEmpty && ((do
            Lowering.lowerElement ⟨collidingClusters, uses⟩ first
            let sources ← Lowering.resolveReads (.cluster funcs)
            let ms ← Lowering.addMembers ⟨collidingClusters, uses⟩
              ((Element.cluster funcs).print collidingClusters.scope) true 0 funcs .empty
            return (sources, ms, ← get) : Lowering.Step _).run' ⟨.start false .empty, plan,
              .ofNames collidingClusters.scope.names, collidingClusters.declarations⟩).any fun r =>
            r.2.1.buffers.isEmpty && r.2.2.session.metrics.isEmpty &&
              r.2.2.session.estimator.isNone &&
              (traverseList (Lowering.sourceOf collidingClusters.scope r.1)
                r.2.1.builder.args).toOption.isSome) = true := by
    intro first funcs helements
    cases helements
    decide +kernel
  obtain ⟨first, funcs, helements⟩ : ∃ first funcs, collidingClusters.elements
      = [first, .cluster funcs] := ⟨_, _, rfl⟩
  have hgathered := hgathered first funcs helements
  simp only [Option.any_eq_true, Bool.and_eq_true, List.isEmpty_iff, Option.isNone_iff_eq_none,
    Option.isSome_iff_exists, toOption_eq_some_iff] at hgathered
  rcases hgathered with ⟨uses, huses, plan, hplan, hcopies, ⟨sources, ms, l⟩, hrun,
    ⟨⟨hbuffers, hmetrics⟩, hnone⟩, inputs, hserved⟩
  rcases exists_lowerProcess_ok collidingClusters _ uses plan first funcs sources ms l huses hplan
    hcopies helements hrun hbuffers hmetrics hnone inputs hserved with ⟨out, s', hlower⟩
  exact ⟨out, s', bind_ok_iff.mpr ⟨out, s', hlower, rfl⟩⟩

/-- The components are the units of the clusters. These get one name, because the
    operations spell the same name and the fingerprints collide. -/
theorem collidingClusters_components (T : Bodies) :
    ∃ fu gu : FunctionalUnit,
      collidingClusters.components false T = [.unit (fu.under T), .unit (gu.under T)] ∧
      (fu.under T).name = (gu.under T).name ∧
      (fu.params.length = 37 ∧ fu.argWidths.length = 5 ∧ fu.outputs.length = 16) ∧
      gu.params.length = 40 ∧ gu.argWidths.length = 8 ∧ gu.outputs.length = 16 := by
  have hunits : (collidingClusters.elements.map fun el =>
      (el.unit? collidingClusters.scope).map fun fu =>
        (fu.params.length, fu.argWidths.length, fu.outputs.length))
          = [some (37, 5, 16), some (40, 8, 16)] := by decide +kernel
  have hcollide : (collidingClusters.elements.filterMap
      (Element.unit? collidingClusters.scope)).Pairwise fun fu gu => fu.name = gu.name ∧
        Text.fingerprintChars fu.characters = Text.fingerprintChars gu.characters := by
    decide +kernel
  -- Nothing is copied, no member is constant and none has a buffer.
  have hothers : collidingClusters.copies = [] ∧ ∀ el ∈ collidingClusters.elements,
      ∃ funcs, el.members? = some (true, funcs) ∧
        funcs.filterMap (Func.source? collidingClusters.scope) = [] ∧
        funcs.filterMap (Func.bufferComponent? collidingClusters.scope) = [] := by
    refine ⟨by decide +kernel, ?_⟩
    simp only [collidingClusters, List.forall_mem_cons]
    exact ⟨⟨_, rfl, by decide +kernel, by decide +kernel⟩,
      ⟨_, rfl, by decide +kernel, by decide +kernel⟩, fun _ h => absurd h List.not_mem_nil⟩
  -- So a cluster has its unit as its only component.
  have hcluster : ∀ el ∈ collidingClusters.elements, ∀ fu,
      el.unit? collidingClusters.scope = some fu →
        el.components collidingClusters false T = [.unit (fu.under T)] := by
    intro el hel fu hfu
    rcases hothers.2 el hel with ⟨funcs, hmembers, hsources, hbuffers⟩
    unfold Element.components
    rw [hmembers, hfu]
    change _ ++ _ ++ _ = _
    rw [hsources, hbuffers]
    rfl
  rcases List.map_eq_cons_iff.mp hunits with ⟨e₁, rest, hels, h₁, hrest⟩
  rcases List.map_eq_singleton_iff.mp hrest with ⟨e₂, rfl, h₂⟩
  rcases Option.map_eq_some_iff.mp h₁ with ⟨fu, hfu, hcounts⟩
  rcases Option.map_eq_some_iff.mp h₂ with ⟨gu, hgu, hcounts'⟩
  rw [hels, List.forall_mem_cons, List.forall_mem_singleton] at hcluster
  rw [hels, List.filterMap_cons_some hfu, List.filterMap_cons_some hgu, List.filterMap_nil,
    List.pairwise_pair, ← fu.body_characters, ← gu.body_characters, ← Text.fingerprint_eq,
    ← Text.fingerprint_eq] at hcollide
  refine ⟨fu, gu, ?_, ?_, by simpa using hcounts, by simpa using hcounts'⟩
  · unfold Process.components
    rw [hothers.1, hels, List.flatMap_cons, List.flatMap_singleton, hcluster.1 fu hfu,
      hcluster.2 gu hgu]
    rfl
  · rw [FunctionalUnit.under, FunctionalUnit.under, hcollide.1, hcollide.2]

/-- Units whose fingerprints collide do not fit. The second instance names the
    template of the first, which has three parameters and three ports less. -/
theorem colliding_units_misfit :
    ∃ out s' first second template sig,
      lowerAll [collidingClusters] (Session.start false .empty) = .ok [out] s' ∧
        out.sites = [first, second] ∧ out.templates = [template] ∧
        template.name = templateOf second.key ∧ Signature.read? template.render = some sig ∧
        sig.params.length = 37 ∧ (argumentsOf second.key).length = 40 ∧
        sig.ports.length = 21 ∧ second.ports.length = 24 := by
  rcases collidingClusters_lowered with ⟨out, s', hlower⟩
  rcases collidingClusters_components s'.cache.bodies with ⟨fu, gu, hcs, hsame, hfu, hgu⟩
  rcases lowerAll_emits _ _ s' [out] hlower with ⟨calls, hemitted, hcalls⟩
  have hcomponents := hcalls s'.cache.bodies (Bodies.Keeps.refl _)
  have hspelled := spelled_of_calls _ _ _ calls hcomponents
  rw [List.flatMap_singleton] at hcomponents
  rcases List.map_eq_cons_iff.mp (hcomponents.trans hcs) with ⟨x, rest, rfl, hx, hrest⟩
  rcases List.map_eq_singleton_iff.mp hrest with ⟨y, rfl, hy⟩
  rw [List.forall_mem_cons, List.forall_mem_singleton, hx, hy] at hspelled
  -- The keys are those of the units.
  have hkeys := hemitted.sites
  rw [List.flatMap_singleton] at hkeys
  rcases List.map_eq_cons_iff.mp hkeys with ⟨first, rest, hsites, _, hrest⟩
  rcases List.map_eq_singleton_iff.mp hrest with ⟨second, rfl, hsecond⟩
  have hkey : second.key = (Component.unit (gu.under s'.cache.bodies)).key := by
    rw [hsecond, Call.key, hy]
  -- Both units have one name, so only the first brings a template along.
  have htemplates : out.templates = [x.template] := by
    have hnames : y.template.name = x.template.name := by
      rw [x.name_eq, y.name_eq, hx, hy]
      exact hsame.symm
    have hfirsts := hemitted.templates
    rw [List.flatMap_singleton] at hfirsts
    rw [hfirsts]
    simp [firsts, hnames, Session.start, Cache.empty]
  have hrender : x.template.render
      = (Component.unit (fu.under s'.cache.bodies)).template.render := by
    rw [x.render_eq, hx]
  have hname : x.template.name = templateOf second.key := by
    rw [hkey, Component.templateOf_key _ hspelled.2, x.name_eq, hx]
    exact hsame
  -- The second instance is for a call site of the second unit.
  have hports : second.ports.length = 24 := by
    rcases sites_isFor hlower 0 _ out rfl rfl with ⟨hfor, hplacements⟩
    rcases List.map_eq_cons_iff.mp (hplacements.trans hcs) with ⟨q, rest, hqs, _, hrest⟩
    rcases List.map_eq_singleton_iff.mp hrest with ⟨r, rfl, hr⟩
    have hwired := wired_of_mem_placements _ _ _ r (by rw [hqs]; simp)
    rw [hqs, hsites] at hfor
    simp only [List.forall₂_cons] at hfor
    rw [hfor.2.1.2, hwired.ports_length _ hr]
    exact congrArg₂ (· + ·) hgu.2.1 hgu.2.2
  refine ⟨out, s', first, second, x.template,
    (Component.unit (fu.under s'.cache.bodies)).template.signature, hlower, hsites, htemplates,
    hname, ?_, ?_, ?_, ?_, hports⟩
  · rw [hrender]
    exact Component.read_render _ hspelled.1 trivial
  · exact (List.length_map ..).trans (List.length_range.trans hfu.1)
  · rw [hkey, Component.argumentsOf_key _ hspelled.2 hspelled.2.params_ne_nil]
    exact hgu.1
  · change (List.map _ (_ ++ _)).length = 21
    rw [List.length_map, List.length_append, List.length_map, List.length_map,
      List.length_range, List.length_range]
    exact congrArg₂ (· + ·) hfu.2.1 hfu.2.2

end DataflowCircuit
