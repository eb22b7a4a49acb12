import DataflowCircuit.Proofs.FunctionalUnit.Members

/-!
# Lowering Elements

The walk over lowering. Every element leaves a trace, and `ElementTrace` says for
every shape of element which traces these are: what is asked, in which order, and
which call sites are written with the answers. Everything else that is said about
lowered elements is read off such traces.

The first thing to be read off is the layout. `Fed` says which of the wires that
an element was served end up on which port. It names no key and no instance name,
because what a circuit computes depends on its wiring alone, and it says where
inputs end and outputs begin by counting the outputs. A split lists its guard
before its input, although the input is read first; every other element lists its
inputs in reading order. What an element writes besides its own instance consumes
nothing that was served: sources have no input, and buffers and the sinks of
unobserved outputs sit behind an output of the instance.

## Main definitions

* `Fed`: The instances of an element and the wires they read.
* `warnUnread`, `connectSink`: What becomes of an output that nobody observes.
* `Connected`: The outputs of a split as they are connected, with their trace.
* `Element.join?`: The component of an element that joins channels.
* `ElementTrace`, `Traced`: The traces of an element, and of elements in order.

## Theorems

* `connectOutputs_observed`, `connectOutputs_sunk`: One output of a split.
* `walk_lowerElement`, `walk_lowerElements`: The walk.
* `ElementTrace.served`, `ElementTrace.fed`, `ElementTrace.units`,
  `ElementTrace.closed`: What is read off a trace.
-/

namespace DataflowCircuit

/-- The ports of the sources that the constant members of a unit become. -/
def sourcePorts (s : Scope) (funcs : List (Func ChannelId Expr)) : List (List String) :=
  (funcs.filter fun f => f.expr.asConst?.isSome).map fun f => f.output.toList.map s.nameOf

/-- The number of members of a unit that are not constant. -/
def memberCount (funcs : List (Func ChannelId Expr)) : Nat :=
  (funcs.filter fun f => f.expr.asConst?.isNone).length

/-- The instances of an element whose reads are served by the wires `ws`, in
    reading order. -/
inductive Fed (s : Scope) : Element ChannelId Expr → List String → List Instance → Prop where
  | split (guard input : ChannelId) (outputs : List (Option ChannelId))
      (inputWire guardWire : String) (outs : List String) (inst : Instance)
      (sinks : List Instance) (hports : inst.ports = guardWire :: inputWire :: outs)
      (houts : outs.length = outputs.length)
      (hsinks : ∀ sink ∈ sinks, ∃ wire ∈ outs, sink.ports = [wire]) :
      Fed s (.split guard input outputs) [inputWire, guardWire] (inst :: sinks)
  | merge (guard : ChannelId) (inputs : List ChannelId) (out : ChannelId) (ws : List String)
      (inst : Instance) (hports : inst.ports = ws ++ [s.nameOf out]) :
      Fed s (.merge guard inputs out) ws [inst]
  | mixer (inputs : List ChannelId) (out : ChannelId) (ws : List String) (inst : Instance)
      (hports : inst.ports = ws ++ [s.nameOf out]) : Fed s (.mixer inputs out) ws [inst]
  | arbiter (inputs : List ChannelId) (out ctrl : ChannelId) (ws : List String)
      (inst : Instance) (hports : inst.ports = ws ++ [s.nameOf out, s.nameOf ctrl]) :
      Fed s (.arbiter inputs out ctrl) ws [inst]
  | sink (input : ChannelId) (wire : String) (inst : Instance) (hports : inst.ports = [wire]) :
      Fed s (.sink input) [wire] [inst]
  /-- Members that are all constant read nothing and have no unit. -/
  | sources (el : Element ChannelId Expr) (clustered : Bool) (funcs : List (Func ChannelId Expr))
      (sources : List Instance) (hmembers : el.members? = some (clustered, funcs))
      (hcount : memberCount funcs = 0)
      (hsources : sources.map Instance.ports = sourcePorts s funcs) : Fed s el [] sources
  | unit (el : Element ChannelId Expr) (clustered : Bool) (funcs : List (Func ChannelId Expr))
      (ws outs : List String) (sources : List Instance) (inst : Instance)
      (buffers : List Instance) (hmembers : el.members? = some (clustered, funcs))
      (hcount : 0 < memberCount funcs)
      (hsources : sources.map Instance.ports = sourcePorts s funcs)
      (hports : inst.ports = ws ++ outs) (houts : outs.length = memberCount funcs)
      (hbuffers : ∀ buffer ∈ buffers, ∃ front ∈ outs, ∃ behind, buffer.ports = [front, behind]) :
      Fed s el ws (sources ++ inst :: buffers)

/-- The channels that are introduced for the outputs that are sunk. -/
@[simps] def Trace.sunk (width : Nat) (wires : List String) : Trace where
  kinds := []
  served := []
  drawn := wires.map fun wire => (.numbered "sink", wire)
  declared := wires.map fun wire => ⟨wire, .int width⟩
  sites := []

namespace Lowering

section Outputs

variable (sub : Subject)

/-- Report an output that is connected, although nobody observes its channel. -/
def warnUnread (element : String) : Option ChannelId → Step Unit
  | some id => onSession (Session.warn [.neverRead (sub.scope.nameOf id) element])
  | none => pure ()

/-- Connect an output to a sink, and then the outputs behind it. -/
def connectSink (element : String) (width : Nat) (outputs : List (Option ChannelId)) :
    Step SplitOutputs := do
  let wire ← draw (.numbered "sink")
  declareChannel wire width
  let rest ← connectOutputs sub element width outputs
  return ⟨"sink_" ++ rest.name, wire :: rest.wires, wire :: rest.sunk⟩

/-- An output whose channel is observed is connected to it. -/
theorem connectOutputs_observed (element : String) (width : Nat) (out : Option ChannelId)
    (outputs : List (Option ChannelId)) (id : ChannelId)
    (h : out.filter (isConsumed sub) = some id) :
    connectOutputs sub element width (out :: outputs) = do
      let rest ← connectOutputs sub element width outputs
      return ⟨normalizeChannel (sub.scope.nameOf id) ++ rest.name,
        sub.scope.nameOf id :: rest.wires, rest.sunk⟩ := by
  rw [connectOutputs, h]

/-- Any other output is connected to a sink, and reported if it has a channel. -/
theorem connectOutputs_sunk (element : String) (width : Nat) (out : Option ChannelId)
    (outputs : List (Option ChannelId)) (h : out.filter (isConsumed sub) = none) :
    connectOutputs sub element width (out :: outputs)
      = warnUnread sub element out >>= fun _ => connectSink sub element width outputs := by
  rw [connectOutputs, h]
  cases out <;> rfl

/-- The call site of the sink that consumes a wire. -/
def sinkSite (width : Nat) (wire : String) : Site :=
  ⟨.sink width, normalizeChannel wire ++ "_sink", [wire]⟩

/-- The outputs of a split as they are connected: to their channel if it is
    observed, and otherwise to a channel that is introduced for them. -/
inductive Connected (s : Scope) (observed : ChannelId → Bool) :
    List (Option ChannelId) → SplitOutputs → Prop where
  | nil : Connected s observed [] ⟨"", [], []⟩
  | observed (out : Option ChannelId) (outs : List (Option ChannelId)) (id : ChannelId)
      (r : SplitOutputs) (hout : out.filter observed = some id)
      (hrest : Connected s observed outs r) :
      Connected s observed (out :: outs)
        ⟨normalizeChannel (s.nameOf id) ++ r.name, s.nameOf id :: r.wires, r.sunk⟩
  | sunk (out : Option ChannelId) (outs : List (Option ChannelId)) (wire : String)
      (r : SplitOutputs) (hout : out.filter observed = none) (hrest : Connected s observed outs r) :
      Connected s observed (out :: outs) ⟨"sink_" ++ r.name, wire :: r.wires, wire :: r.sunk⟩

end Outputs

end Lowering

/-- What an element that joins channels becomes, and the channels that it
    writes. -/
def Element.join? (s : Scope) (pipeline : Bool) :
    Element ChannelId Expr → Option (Component × List ChannelId)
  | .merge guard inputs out =>
    some (.routing .merge pipeline inputs.length [s.widthOf guard, s.widthOf out], [out])
  | .mixer inputs out => some (.routing .mixer pipeline inputs.length [s.widthOf out], [out])
  | .arbiter inputs out ctrl =>
    some (.routing .arbiter pipeline inputs.length [s.widthOf out, s.widthOf ctrl], [out, ctrl])
  | _ => none

namespace Lowering

/-- The call site of a join is named after the first channel that it writes. -/
def joinSite (s : Scope) (c : Component) (inputs : List String) (outs : List ChannelId) : Site where
  component := c
  label := ((outs.map s.nameOf).head?.map fun w => normalizeChannel w ++ "_inst").getD ""
  ports := inputs ++ outs.map s.nameOf

/-- The call sites of gathered members: their unit, if they state anything, and
    then their buffers. -/
def Members.sites (ms : Members) (inputs : List String) : List Site :=
  if ms.builder.statements.isEmpty then []
  else ms.site inputs :: ms.buffers.map PendingBuffer.site

/-- The traces of an element. -/
inductive ElementTrace (s : Scope) (observed : ChannelId → Bool) :
    Element ChannelId Expr → Trace → Prop where
  | split (guard input : ChannelId) (outputs : List (Option ChannelId)) (pipeline : Bool)
      (inputWire guardWire : String) (r : SplitOutputs) (houts : Connected s observed outputs r) :
      ElementTrace s observed (.split guard input outputs)
        { Trace.sunk (s.widthOf input) r.sunk with
          kinds := [pipeline]
          served := [(input, inputWire), (guard, guardWire)]
          sites :=
            ⟨.routing .split pipeline outputs.length [s.widthOf guard, s.widthOf input],
              normalizeChannel inputWire ++ normalizeChannel guardWire ++ r.name ++ "_inst",
              guardWire :: inputWire :: r.wires⟩ :: r.sunk.map (sinkSite (s.widthOf input)) }
  | join (el : Element ChannelId Expr) (pipeline : Bool) (c : Component) (outs : List ChannelId)
      (served : List (ChannelId × String)) (hjoin : el.join? s pipeline = some (c, outs))
      (hserved : served.map Prod.fst = el.reads) :
      ElementTrace s observed el
        ⟨[pipeline], served, [], [], [joinSite s c (served.map Prod.snd) outs]⟩
  | sink (input : ChannelId) (wire : String) :
      ElementTrace s observed (.sink input)
        ⟨[], [(input, wire)], [], [], [sinkSite (s.widthOf input) wire]⟩
  | members (el : Element ChannelId Expr) (clustered : Bool) (funcs : List (Func ChannelId Expr))
      (served : List (ChannelId × String)) (ms : Members) (τ : Trace)
      (hmembers : el.members? = some (clustered, funcs))
      (hserved : served.map Prod.fst = el.reads)
      (hgather : Gathered s (el.print s) clustered 0 funcs .empty ms τ) :
      ElementTrace s observed el
        { τ with served, sites := τ.sites ++ ms.sites (served.map Prod.snd) }

/-- The traces of elements in order. -/
inductive Traced (s : Scope) (observed : ChannelId → Bool) :
    List (Element ChannelId Expr) → Trace → Prop where
  | nil : Traced s observed [] ∅
  | cons (el : Element ChannelId Expr) (els : List (Element ChannelId Expr)) (τ τ' : Trace)
      (hel : ElementTrace s observed el τ) (hrest : Traced s observed els τ') :
      Traced s observed (el :: els) (τ ++ τ')

section Gathered

variable {s : Scope} {el : Element ChannelId Expr} {clustered : Bool}
  {funcs : List (Func ChannelId Expr)} {ms : Members} {τ : Trace}

/-- The unit of an element is that of its gathered members, if they state
    anything. -/
theorem unit?_of_gathered (hmembers : el.members? = some (clustered, funcs))
    (hgather : Gathered s (el.print s) clustered 0 funcs .empty ms τ) :
    el.unit? s = if ms.builder.statements.isEmpty then none else some ms.unit := by
  have hunit : gatherUnit s (el.print s) clustered 0 funcs .empty []
      = some (ms.builder, ms.outputs) := gathered_unit hgather
  unfold Element.unit?
  rw [hmembers]
  simp only [Option.bind_eq_bind, Option.bind_some, hunit]
  rfl

/-- Every member that is not constant has a wire. -/
theorem memberCount_of_gathered
    (hgather : Gathered s (el.print s) clustered 0 funcs .empty ms τ) :
    ms.wires.length = memberCount funcs := by
  have hlen := gathered_wires hgather
  rw [hlen]
  exact Nat.zero_add _

end Gathered

section Walks

variable {known : List (String × Cost)} (sub : Subject)

/-- A sink is written for every wire. -/
theorem walk_sinkWires (width : Nat) (ws : List String) :
    Walk known (sinkWires width ws) fun _ τ => τ = .writes (ws.map (sinkSite width)) := by
  induction ws generalizing known with
  | nil => exact Walk.pure rfl
  | cons wire ws ih =>
      -- One sink is a cost and an instance.
      have hwire : Walk known (sinkWire wire width) fun _ τ => τ = .writes [sinkSite width wire] :=
        Walk.require fun cost => Walk.emit (c := .sink width) rfl (fun _ _ h => by cases h)
          (by rw [Component.key_sink]; exact List.mem_cons_self) (Component.key_sink width).symm
      refine hwire.bind ?_
      rintro _ _ rfl
      refine ih.mono ?_
      rintro _ _ rfl
      rfl

/-- Connecting outputs introduces a channel for each one that is sunk. -/
theorem walk_connectOutputs (element : String) (width : Nat) (outputs : List (Option ChannelId)) :
    Walk known (connectOutputs sub element width outputs) fun r τ =>
      Connected sub.scope (isConsumed sub) outputs r ∧ τ = .sunk width r.sunk := by
  induction outputs with
  | nil => exact Walk.pure ⟨.nil, rfl⟩
  | cons out outputs ih =>
      -- The cases are those of `Connected`: is anything going to read the output?
      cases hout : out.filter (isConsumed sub) with
      | some id =>
          rw [connectOutputs_observed sub element width out outputs id hout]
          refine ih.bind ?_
          rintro r _ ⟨hr, rfl⟩
          exact Walk.pure ⟨.observed out outputs id r hout hr, Trace.append_empty _⟩
      | none =>
          -- An output that has no channel is not reported.
          have hwarn : Walk known (warnUnread sub element out) fun _ τ => τ = ∅ := by
            cases out with
            | none => exact Walk.pure rfl
            | some id => exact Walk.unread _ _
          rw [connectOutputs_sunk sub element width out outputs hout]
          refine hwarn.bind ?_
          rintro _ _ rfl
          refine (Walk.draw _).bind ?_
          rintro wire _ rfl
          refine (Walk.declareChannel wire width).bind ?_
          rintro _ _ rfl
          refine ih.bind ?_
          rintro r _ ⟨hr, rfl⟩
          refine Walk.pure ⟨.sunk out outputs wire r hout hr, ?_⟩
          rw [Trace.append_empty]
          rfl

/-- A join reads its inputs and is one instance. -/
theorem walk_join (el : Element ChannelId Expr) (kind : Routing) (pipeline : Bool) (ports : Nat)
    (widths : List Nat) (key : String) (outs : List ChannelId)
    (hjoin : el.join? sub.scope pipeline = some (.routing kind pipeline ports widths, outs))
    (hkey : (Component.routing kind pipeline ports widths).key = key)
    (hports : ∀ cost, (kind.body ports).portCosts (some cost)
      = [⟨"out", cost.delay, cost.energy⟩]) :
    Walk known (wires el >>= fun ws =>
        join sub ⟨structuralName pipeline kind.text ports, kind.body ports⟩ key ws outs)
      fun _ τ => ElementTrace sub.scope (isConsumed sub) el (.kind pipeline ++ τ) := by
  refine (Walk.wires el).bind ?_
  rintro _ _ ⟨served, hserved, rfl, rfl⟩
  refine Walk.require fun cost => ?_
  rw [← hports cost]
  refine (Walk.emit (c := .routing kind pipeline ports widths) rfl (fun _ _ h => by cases h)
    (by rw [hkey]; exact List.mem_cons_self) hkey.symm).mono ?_
  rintro _ _ rfl
  -- The postcondition is the trace of a join, up to the empty lists that were joined to it.
  have htrace : ElementTrace sub.scope (isConsumed sub) el _ :=
    .join el pipeline _ outs served hjoin hserved
  convert htrace using 1
  ext1 <;> simp [joinSite]

/-- A merge joins its guard and its inputs. -/
theorem walk_lowerMerge (guard : ChannelId) (inputs : List ChannelId) (out : ChannelId) :
    Walk known (lowerMerge sub (.merge guard inputs out) guard inputs out) fun _ τ =>
      ElementTrace sub.scope (isConsumed sub) (.merge guard inputs out) τ := by
  refine Walk.lift fun guardWidth hguard => Walk.lift fun width hwidth => ?_
  refine Walk.get (fun l l' hl => by rw [hl]) fun l => ?_
  rw [← Scope.widthOf_of_ok _ _ _ hguard, ← Scope.widthOf_of_ok _ _ _ hwidth]
  exact walk_join sub _ .merge _ inputs.length _ _ [out] rfl
    (Component.key_routing_two .merge _ _ _ _) fun _ => rfl

/-- A mixer joins its inputs. -/
theorem walk_lowerMixer (inputs : List ChannelId) (out : ChannelId) :
    Walk known (lowerMixer sub (.mixer inputs out) inputs out) fun _ τ =>
      ElementTrace sub.scope (isConsumed sub) (.mixer inputs out) τ := by
  refine Walk.lift fun width hwidth => Walk.get (fun l l' hl => by rw [hl]) fun l => ?_
  rw [← Scope.widthOf_of_ok _ _ _ hwidth]
  exact walk_join sub _ .mixer _ inputs.length _ _ [out] rfl
    (Component.key_routing_one .mixer _ _ _) fun _ => rfl

/-- An arbiter joins its inputs, and writes a second channel. -/
theorem walk_lowerArbiter (inputs : List ChannelId) (out ctrl : ChannelId) :
    Walk known (lowerArbiter sub (.arbiter inputs out ctrl) inputs out ctrl) fun _ τ =>
      ElementTrace sub.scope (isConsumed sub) (.arbiter inputs out ctrl) τ := by
  refine Walk.lift fun width hwidth => Walk.lift fun ctrlWidth hctrl => ?_
  refine Walk.get (fun l l' hl => by rw [hl]) fun l => ?_
  rw [← Scope.widthOf_of_ok _ _ _ hwidth, ← Scope.widthOf_of_ok _ _ _ hctrl]
  exact walk_join sub _ .arbiter _ inputs.length _ _ [out, ctrl] rfl
    (Component.key_routing_two .arbiter _ _ _ _) fun _ => rfl

/-- A sink consumes the one wire it was served. -/
theorem walk_lowerSink (input : ChannelId) :
    Walk known (lowerSink sub (.sink input) input) fun _ τ =>
      ElementTrace sub.scope (isConsumed sub) (.sink input) τ := by
  refine Walk.lift fun width hwidth => (Walk.wires (.sink input)).bind ?_
  rintro _ _ ⟨served, hserved, rfl, rfl⟩
  -- A sink has one read, so one wire was served.
  match served, hserved with
  | [(id, wire)], hserved =>
      have hid : id = input := (List.cons.inj hserved).1
      rw [hid]
      refine (walk_sinkWires width [wire]).mono ?_
      rintro _ _ rfl
      rw [← Scope.widthOf_of_ok _ _ _ hwidth]
      exact .sink input wire

/-- A split is one instance, followed by the sinks of its unobserved outputs. The
    cost of the split is looked up before its outputs are connected. -/
theorem walk_lowerSplit (guard input : ChannelId) (outputs : List (Option ChannelId)) :
    Walk known (lowerSplit sub (.split guard input outputs) guard input outputs) fun _ τ =>
      ElementTrace sub.scope (isConsumed sub) (.split guard input outputs) τ := by
  refine Walk.lift fun guardWidth hguard => Walk.lift fun width hwidth => ?_
  rw [← Scope.widthOf_of_ok _ _ _ hguard, ← Scope.widthOf_of_ok _ _ _ hwidth]
  refine Walk.get (fun l l' hl => by rw [hl]) fun l => Walk.require fun cost => ?_
  refine (Walk.wires _).bind ?_
  rintro _ _ ⟨served, hserved, rfl, rfl⟩
  -- A split reads its input and then its guard.
  match served, hserved with
  | [(id, inputWire), (id', guardWire)], hserved =>
      have hid : id = input := (List.cons.inj hserved).1
      have hid' : id' = guard := (List.cons.inj (List.cons.inj hserved).2).1
      rw [hid, hid']
      refine (walk_connectOutputs sub _ _ outputs).bind ?_
      rintro r _ ⟨hr, rfl⟩
      -- The key that is looked up is that of the component that is written.
      have hkey := Component.key_routing_two .split l.session.pipeline outputs.length
        (sub.scope.widthOf guard) (sub.scope.widthOf input)
      refine (Walk.emit (c := .routing .split l.session.pipeline outputs.length
        [sub.scope.widthOf guard, sub.scope.widthOf input]) rfl (fun _ _ h => by cases h)
        (by rw [hkey]; exact List.mem_cons_self) hkey.symm).bind ?_
      rintro _ _ rfl
      refine (walk_sinkWires _ r.sunk).mono ?_
      rintro _ _ rfl
      -- The sinks follow the split in the order of the outputs they belong to.
      convert ElementTrace.split guard input outputs l.session.pipeline inputWire guardWire r hr
        using 1
      ext1 <;> simp

/-- A function or a cluster is its sources, its unit and the buffers behind
    it. -/
theorem walk_lowerFuncs (el : Element ChannelId Expr) (clustered : Bool)
    (funcs : List (Func ChannelId Expr)) (hmembers : el.members? = some (clustered, funcs)) :
    Walk known (lowerFuncs sub el clustered funcs) fun _ τ =>
      ElementTrace sub.scope (isConsumed sub) el τ := by
  refine (Walk.serveAll el.reads).bind ?_
  rintro served _ ⟨hserved, rfl⟩
  refine (walk_addMembers sub _ clustered 0 funcs .empty).bind fun ms τ hgather => ?_
  have htrace : ElementTrace sub.scope (isConsumed sub) el _ :=
    .members el clustered funcs served ms τ hmembers hserved hgather
  -- Gathering members serves no read and asks for no kind.
  rcases gathered_quiet hgather with ⟨hkinds, hquiet⟩
  have hunit := unit?_of_gathered hmembers hgather
  -- Members without a statement have no unit.
  by_cases hempty : ms.builder.statements.isEmpty = true
  · rw [if_pos hempty]
    refine Walk.pure ?_
    convert htrace using 1
    ext1 <;> simp [hkinds, hquiet, Members.sites, hempty]
  · rw [if_neg hempty] at hunit ⊢
    have hreads := Element.reads_of_members hmembers
    -- The unit has an argument for every read, in the order of the reads.
    have hargs : served.map Prod.fst = ms.builder.args := by
      rw [hserved, hreads]
      exact (gathered_args hgather).symm
    have hnodup : ms.builder.args.Nodup := by
      rw [← hargs, hserved, hreads]
      exact readsOfFuncs_nodup funcs
    -- The graph of the builder is the one that the unit is priced by.
    have hspells := (spells_gatherUnit _ _ clustered 0 funcs .empty _ [] _ (gathered_unit hgather)
      (UnitBuilder.spells_empty clustered) fun _ => rfl).1
    refine (Walk.emitUnit hargs hnodup hspells.graph hunit).mono ?_
    rintro _ _ rfl
    convert htrace using 1
    ext1 <;> simp [hkinds, hquiet, Members.sites, hempty]

/-- Lowering an element leaves a trace of it. -/
theorem walk_lowerElement (el : Element ChannelId Expr) :
    Walk known (lowerElement sub el) fun _ τ => ElementTrace sub.scope (isConsumed sub) el τ := by
  cases el with
  | func f => exact walk_lowerFuncs sub _ false [f] rfl
  | cluster funcs => exact walk_lowerFuncs sub _ true funcs rfl
  | split guard input outputs => exact walk_lowerSplit sub guard input outputs
  | merge guard inputs out => exact walk_lowerMerge sub guard inputs out
  | mixer inputs out => exact walk_lowerMixer sub inputs out
  | arbiter inputs out ctrl => exact walk_lowerArbiter sub inputs out ctrl
  | sink input => exact walk_lowerSink sub input

/-- Lowering elements in order leaves their traces one after another. -/
theorem walk_lowerElements (els : List (Element ChannelId Expr)) :
    Walk known (lowerElements sub els) fun _ τ => Traced sub.scope (isConsumed sub) els τ := by
  induction els with
  | nil => exact Walk.pure .nil
  | cons el els ih =>
      refine (walk_lowerElement sub el).bind fun _ τ hel => ih.mono fun _ τ' hrest => ?_
      exact .cons el els τ τ' hel hrest

end Walks

section Readings

variable {s : Scope} {observed : ChannelId → Bool} {outputs : List (Option ChannelId)}
  {r : SplitOutputs} {el : Element ChannelId Expr} {τ : Trace}

/-- Every output has a wire, and what is to be sunk is among the wires. -/
theorem Connected.wired (h : Connected s observed outputs r) :
    r.wires.length = outputs.length ∧ ∀ wire ∈ r.sunk, wire ∈ r.wires := by
  induction h with
  | nil => exact ⟨rfl, fun _ h => h⟩
  | observed out outs id r hout hrest ih =>
      exact ⟨congrArg (· + 1) ih.1, fun wire hw => List.mem_cons_of_mem _ (ih.2 wire hw)⟩
  | sunk out outs wire r hout hrest ih =>
      refine ⟨congrArg (· + 1) ih.1, fun w hw => ?_⟩
      rcases List.mem_cons.mp hw with rfl | hw
      · exact List.mem_cons_self
      · exact List.mem_cons_of_mem _ (ih.2 w hw)

/-- The reads of an element are served in order. -/
theorem ElementTrace.served (h : ElementTrace s observed el τ) :
    τ.served.map Prod.fst = el.reads := by
  cases h with
  | split => rfl
  | join el pipeline c outs served hjoin hserved => exact hserved
  | sink => rfl
  | members el clustered funcs served ms τ hmembers hserved hgather => exact hserved

/-- The reads of elements are served in order. -/
theorem Traced.served {els : List (Element ChannelId Expr)} (h : Traced s observed els τ) :
    τ.served.map Prod.fst = els.flatMap Element.reads := by
  induction h with
  | nil => rfl
  | cons el els τ τ' hel hrest ih =>
      rw [Trace.served_append, List.map_append, hel.served, ih, List.flatMap_cons]

/-- Every element of a list that left a trace left one itself. -/
theorem Traced.mem {els : List (Element ChannelId Expr)} (h : Traced s observed els τ) :
    ∀ el ∈ els, ∃ τ', ElementTrace s observed el τ' := by
  induction h with
  | nil => exact fun _ hel => absurd hel List.not_mem_nil
  | cons el els τ τ' hel hrest ih => exact List.forall_mem_cons.mpr ⟨⟨τ, hel⟩, ih⟩

/-- Members without a statement are their sources: without a statement there is
    no output, hence no argument and no read. -/
theorem fed_of_sources {clustered : Bool} {funcs : List (Func ChannelId Expr)} {ms : Members}
    {served : List (ChannelId × String)} (hmembers : el.members? = some (clustered, funcs))
    (hserved : served.map Prod.fst = el.reads)
    (hgather : Gathered s (el.print s) clustered 0 funcs .empty ms τ)
    (hempty : ms.builder.statements.isEmpty = true) (T : Bodies) :
    Fed s el (served.map Prod.snd) (τ.sites.map (Site.toInstance T)) := by
  have hsound := gathered_sound hgather sound_empty
  have hwires := hsound.wires_eq_nil_iff.mpr hempty
  have hargs : served.map Prod.fst = ms.builder.args := by
    rw [hserved, Element.reads_of_members hmembers]
    exact (gathered_args hgather).symm
  -- A unit without outputs has no arguments, so nothing was served.
  have hnone : served = [] := by
    rw [(hsound.bare hwires).1] at hargs
    exact List.map_eq_nil_iff.mp hargs
  have hzero : memberCount funcs = 0 := by
    rw [← memberCount_of_gathered hgather, hwires, List.length_nil]
  rw [hnone]
  refine .sources el clustered funcs _ hmembers hzero ?_
  rw [List.map_map]
  exact (gathered_sites hgather).2

/-- With a statement there is a unit behind the sources. -/
theorem fed_of_unit {clustered : Bool} {funcs : List (Func ChannelId Expr)} {ms : Members}
    (ws : List String) (hmembers : el.members? = some (clustered, funcs))
    (hgather : Gathered s (el.print s) clustered 0 funcs .empty ms τ)
    (hstated : ¬ ms.builder.statements.isEmpty = true) (T : Bodies) :
    Fed s el ws ((τ.sites ++ ms.site ws :: ms.buffers.map PendingBuffer.site).map
      (Site.toInstance T)) := by
  have hsound := gathered_sound hgather sound_empty
  have hlen := memberCount_of_gathered hgather
  -- A statement means an output, and an output a member that is not constant.
  have hcount : 0 < memberCount funcs := by
    rw [← hlen]
    exact List.length_pos_iff.mpr fun hnil => hstated (hsound.wires_eq_nil_iff.mp hnil)
  rw [List.map_append, List.map_cons]
  refine .unit el clustered funcs ws ms.wires _ _ _ hmembers hcount ?_ rfl hlen ?_
  · rw [List.map_map]
    exact (gathered_sites hgather).2
  · intro buffer hmem
    rw [List.map_map] at hmem
    -- A buffer reads the channel that the unit writes for it.
    rcases List.mem_map.mp hmem with ⟨b, hb, rfl⟩
    exact ⟨b.channel, hsound.buffered b hb, b.target, rfl⟩

/-- The wires that were served end up on the ports that they belong to. -/
theorem ElementTrace.fed (h : ElementTrace s observed el τ) (T : Bodies) :
    Fed s el (τ.served.map Prod.snd) (τ.sites.map (Site.toInstance T)) := by
  cases h with
  | split guard input outputs pipeline inputWire guardWire r houts =>
      rcases houts.wired with ⟨hlen, hsunk⟩
      refine .split guard input outputs inputWire guardWire r.wires _ _ rfl hlen ?_
      -- The sinks of a split read wires that the split itself drives.
      intro sink hmem
      rw [List.map_map] at hmem
      rcases List.mem_map.mp hmem with ⟨wire, hwire, rfl⟩
      exact ⟨wire, hsunk wire hwire, rfl⟩
  | join el pipeline c outs served hjoin hserved =>
      -- Only three shapes of elements are joins.
      cases el with
      | merge guard inputs out =>
          cases hjoin
          exact .merge guard inputs out _ _ rfl
      | mixer inputs out =>
          cases hjoin
          exact .mixer inputs out _ _ rfl
      | arbiter inputs out ctrl =>
          cases hjoin
          exact .arbiter inputs out ctrl _ _ rfl
      | _ => cases hjoin
  | sink input wire => exact .sink input wire _ rfl
  | members el clustered funcs served ms τ hmembers hserved hgather =>
      dsimp only
      unfold Members.sites
      by_cases hempty : ms.builder.statements.isEmpty = true
      · rw [if_pos hempty, List.append_nil]
        exact fed_of_sources hmembers hserved hgather hempty T
      · rw [if_neg hempty]
        exact fed_of_unit _ hmembers hgather hempty T

/-- The only unit that an element writes is its own. -/
theorem ElementTrace.units (h : ElementTrace s observed el τ) :
    τ.sites.filterMap Site.unit? = (el.unit? s).toList := by
  -- Sinks and buffers are not units.
  have hnone : ∀ {α : Type} (f : α → Site) (xs : List α), (∀ x, (f x).unit? = none) →
      (xs.map f).filterMap Site.unit? = [] := by
    intro α f xs hf
    rw [List.filterMap_map]
    exact List.filterMap_eq_nil_iff.mpr fun x _ => hf x
  cases h with
  | split guard input outputs pipeline inputWire guardWire r houts =>
      exact hnone (sinkSite (s.widthOf input)) r.sunk fun _ => rfl
  | join el pipeline c outs served hjoin hserved => cases el <;> cases hjoin <;> rfl
  | sink input wire => rfl
  | members el clustered funcs served ms τ hmembers hserved hgather =>
      rw [unit?_of_gathered hmembers hgather, List.filterMap_append, (gathered_sites hgather).1]
      unfold Members.sites
      by_cases hempty : ms.builder.statements.isEmpty = true
      · rw [if_pos hempty, if_pos hempty]
        rfl
      · rw [if_neg hempty, if_neg hempty, List.filterMap_cons,
          hnone PendingBuffer.site ms.buffers fun _ => rfl]
        rfl

/-- The name of a unit ends in a width or a position. -/
theorem ElementTrace.closed (h : ElementTrace s observed el τ) (fu : FunctionalUnit)
    (hfu : el.unit? s = some fu) : ∃ ts t, fu.name = unitName (ts ++ [t]) ∧ t.endsName = true := by
  cases h with
  | split => cases hfu
  | join el pipeline c outs served hjoin hserved => cases el <;> cases hjoin <;> cases hfu
  | sink => cases hfu
  | members el clustered funcs served ms τ hmembers hserved hgather =>
      have hsound := gathered_sound hgather sound_empty
      rw [unit?_of_gathered hmembers hgather] at hfu
      by_cases hempty : ms.builder.statements.isEmpty = true
      · rw [if_pos hempty] at hfu
        cases hfu
      · rw [if_neg hempty, Option.some.injEq] at hfu
        -- The name of a unit that writes anything ends in the tokens of its last statement.
        rcases hsound.closed fun hnil => hempty (hsound.wires_eq_nil_iff.mp hnil) with
          ⟨ts, t, hname, hends⟩
        refine ⟨ts, t, ?_, hends⟩
        rw [← hfu, ← hname]
        rfl

end Readings

end Lowering

end DataflowCircuit
