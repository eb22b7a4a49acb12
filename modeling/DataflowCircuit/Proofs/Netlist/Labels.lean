import DataflowCircuit.Proofs.Naming.FreshNames
import DataflowCircuit.Proofs.Netlist.Deduplication

/-!
# The Names of a Lowered Process

Lowering names its instances after the wires they read and write, and it
introduces channels with fresh names. None of this depends on the session, and
this file says what the names are: `Element.coin` computes the labels of the
instances of an element and the channels it introduces, from the wires that
serve its reads and the names that are still free.

That lowering gives these names is read off the traces of elements: a trace has
the labels of its call sites, and lists the names that were drawn.

## Main definitions

* `Element.coin`, `Process.coined`: The names that an element, or a process,
  gives.

## Theorems

* `Connected.coins`, `gathered_coins`: The names that the parts of an element
  give.
* `ElementTrace.coins`, `Traced.coins`: Elements give the names that they coin.
-/

namespace DataflowCircuit

/-- The names that an element gives: the labels of its instances and the
    channels it introduces, and the supply that is left. -/
structure Coined where
  labels : List String
  channels : List String
  supply : NameSupply

/-- The output of a function as it stands in labels. -/
def Func.label (s : Scope) (f : Func ChannelId Expr) : String :=
  normalizeChannel ((f.output.map s.nameOf).getD "")

/-- The outputs of a split as they stand in its label, and the channels that
    take what nobody observes. -/
def coinOutputs (s : Scope) (observed : ChannelId → Bool) :
    List (Option ChannelId) → NameSupply → String × List String × NameSupply
  | [], ns => ("", [], ns)
  | out :: outs, ns =>
    match out.filter observed with
    | some id =>
      let rest := coinOutputs s observed outs ns
      (normalizeChannel (s.nameOf id) ++ rest.1, rest.2.1, rest.2.2)
    | none =>
      let wire := ns.numbered "sink"
      let rest := coinOutputs s observed outs wire.2
      ("sink_" ++ rest.1, wire.1 :: rest.2.1, rest.2.2)

/-- The channel in front of the buffer of a function that has one. -/
def coinBuffer (s : Scope) (f : Func ChannelId Expr) (ns : NameSupply) :
    List String × NameSupply :=
  if f.expr.asConst?.isNone && (Lowering.bufferDepth? f).isSome then
    ([(ns.plain (f.label s ++ "_buf")).1], (ns.plain (f.label s ++ "_buf")).2)
  else ([], ns)

/-- The channels in front of the buffers of functions. -/
def coinBuffers (s : Scope) : List (Func ChannelId Expr) → NameSupply → List String × NameSupply
  | [], ns => ([], ns)
  | f :: fs, ns =>
    let first := coinBuffer s f ns
    let rest := coinBuffers s fs first.2
    (first.1 ++ rest.1, rest.2)

/-- The labels of the sources of functions. -/
def sourceLabels (s : Scope) (funcs : List (Func ChannelId Expr)) : List String :=
  (funcs.filter fun f => f.expr.asConst?.isSome).map fun f => f.label s ++ "_inst"

/-- The outputs of the unit of functions as they stand in its label. -/
def outputLabels (s : Scope) (funcs : List (Func ChannelId Expr)) : List String :=
  (funcs.filter fun f => f.expr.asConst?.isNone).map (Func.label s)

/-- The label of the unit of functions, if there is one. -/
def unitLabels (s : Scope) (funcs : List (Func ChannelId Expr)) : List String :=
  if outputLabels s funcs = [] then []
  else [String.intercalate "_" (outputLabels s funcs) ++ "_inst"]

/-- The names that functions give together: their sources come first, then their
    unit, then their buffers. -/
def coinMembers (s : Scope) (funcs : List (Func ChannelId Expr)) (ns : NameSupply) : Coined :=
  let buffers := coinBuffers s funcs ns
  { labels := sourceLabels s funcs ++ (unitLabels s funcs ++ buffers.1.map (· ++ "_inst"))
    channels := buffers.1
    supply := buffers.2 }

/-- The label of an instance that writes a channel. -/
def writerLabel (s : Scope) (out : ChannelId) : String :=
  normalizeChannel (s.nameOf out) ++ "_inst"

/-- The label of an instance that consumes a wire. -/
def sinkLabel (wire : String) : String :=
  normalizeChannel wire ++ "_sink"

/-- The names that an element gives whose reads are served by the wires `ws`. -/
def Element.coin (s : Scope) (observed : ChannelId → Bool) (ws : List String) (ns : NameSupply) :
    Element ChannelId Expr → Coined
  | .func f => coinMembers s [f] ns
  | .cluster funcs => coinMembers s funcs ns
  | .split _ _ outputs =>
    let outs := coinOutputs s observed outputs ns
    { labels := (String.join (ws.map normalizeChannel) ++ outs.1 ++ "_inst") ::
        outs.2.1.map sinkLabel
      channels := outs.2.1
      supply := outs.2.2 }
  | .merge _ _ out => ⟨[writerLabel s out], [], ns⟩
  | .mixer _ out => ⟨[writerLabel s out], [], ns⟩
  | .arbiter _ out _ => ⟨[writerLabel s out], [], ns⟩
  | .sink _ => ⟨ws.map sinkLabel, [], ns⟩

/-- The names that elements give in order, where `ws` serve all their reads. -/
def coinAll (s : Scope) (observed : ChannelId → Bool) :
    List (Element ChannelId Expr) → List String → NameSupply → Coined
  | [], _, ns => ⟨[], [], ns⟩
  | el :: els, ws, ns =>
    let first := el.coin s observed (ws.take el.reads.length) ns
    let rest := coinAll s observed els (ws.drop el.reads.length) first.supply
    ⟨first.labels ++ rest.labels, first.channels ++ rest.channels, rest.supply⟩

namespace Process

/-- The names that the elements of a process give. -/
def coined (p : Process) : Coined :=
  coinAll p.scope p.observes p.elements (servingWires p.scope p.reads) (.ofNames p.scope.names)

end Process

namespace Lowering

section Traces

variable {s : Scope} {observed : ChannelId → Bool} {ns ns' : NameSupply} {τ : Trace}

/-- The outputs of a split are sunk under the names that the supply gives. -/
theorem Connected.coins {outs : List (Option ChannelId)} {r : SplitOutputs}
    (h : Connected s observed outs r)
    (hg : ns.Gives (r.sunk.map fun wire => (.numbered "sink", wire)) ns') :
    coinOutputs s observed outs ns = (r.name, r.sunk, ns') := by
  induction h generalizing ns with
  | nil =>
      rw [hg]
      rfl
  | observed out outs id r hout hrest ih =>
      simp only [coinOutputs, hout, ih hg]
  | sunk out outs wire r hout hrest ih =>
      rcases hg with ⟨hwire, hg⟩
      have hwire : wire = (ns.numbered "sink").1 := hwire
      have hrest := ih hg
      unfold NameSupply.answer at hrest
      simp only [coinOutputs, hout, hrest, ← hwire]

/-- A member that is constant is labelled by its output. -/
theorem memberLabels_of_const {f : Func ChannelId Expr} {value : Nat} {out : ChannelId}
    (hconst : f.expr.asConst? = some value) (hout : f.output = some out)
    (fs : List (Func ChannelId Expr)) :
    sourceLabels s (f :: fs) = writerLabel s out :: sourceLabels s fs ∧
      outputLabels s (f :: fs) = outputLabels s fs := by
  simp [sourceLabels, outputLabels, hconst, writerLabel, Func.label, hout]

/-- Any other member adds its output to the label of the unit. -/
theorem memberLabels_of_not_const {f : Func ChannelId Expr} {out : ChannelId}
    (hconst : f.expr.asConst? = none) (hout : f.output = some out)
    (fs : List (Func ChannelId Expr)) :
    sourceLabels s (f :: fs) = sourceLabels s fs ∧
      outputLabels s (f :: fs) = normalizeChannel (s.nameOf out) :: outputLabels s fs := by
  simp [sourceLabels, outputLabels, hconst, Func.label, hout]

/-- What gathering members says about names: the labels of the sources, the
    outputs of the unit, and the channels in front of buffers. -/
structure GathersNames (s : Scope) (fs : List (Func ChannelId Expr)) (ms ms' : Members)
    (ns ns' : NameSupply) (τ : Trace) : Prop where
  labels : τ.sites.map Site.label = sourceLabels s fs
  names : ms'.names = ms.names ++ outputLabels s fs
  supply : coinBuffers s fs ns = (τ.declared.map ChanDecl.name, ns')
  buffers : ms'.buffers.map PendingBuffer.channel
    = ms.buffers.map PendingBuffer.channel ++ τ.declared.map ChanDecl.name

/-- Gathering members gives the names that they coin. -/
theorem gathered_coins {element : String} {clustered : Bool} {position : Nat}
    {fs : List (Func ChannelId Expr)} {ms ms' : Members}
    (h : Gathered s element clustered position fs ms ms' τ) (hg : ns.Gives τ.drawn ns') :
    GathersNames s fs ms ms' ns ns' τ := by
  induction h generalizing ns with
  | done position ms =>
      rw [hg]
      exact ⟨rfl, (List.append_nil _).symm, rfl, (List.append_nil _).symm⟩
  | step position f fs ms ms₁ ms' τ τ' hadd hrest ih =>
      rcases NameSupply.gives_append.mp hg with ⟨mid, hfirst, hg⟩
      have hmore := ih hg
      -- Only a member that asks for a buffer draws a name.
      cases hadd with
      | source value out hconst hout =>
          have hmid : mid = ns := hfirst
          rw [hmid] at hmore
          rcases memberLabels_of_const (s := s) hconst hout fs with ⟨hsources, houtputs⟩
          refine ⟨?_, ?_, ?_, hmore.buffers⟩
          · rw [Trace.sites_append, List.map_append, hmore.labels, hsources]
            rfl
          · rw [hmore.names, houtputs]
          · simp [coinBuffers, coinBuffer, hconst, hmore.supply]
      | member out width result builder channel τ hconst hout hwidth hlower hfits hdrive =>
          rcases memberLabels_of_not_const (s := s) hconst hout fs with ⟨hsources, houtputs⟩
          have hnames : ms'.names = ms.names ++ outputLabels s (f :: fs) := by
            rw [hmore.names, houtputs, Members.grow, List.append_assoc]
            rfl
          -- The channel in front of a buffer is named after the output.
          have hlabel : f.label s = normalizeChannel (s.nameOf out) := by
            simp [Func.label, hout]
          cases hdrive with
          | declared hdepth =>
              have hmid : mid = ns := hfirst
              rw [hmid] at hmore
              refine ⟨hmore.labels.trans hsources.symm, hnames, ?_, ?_⟩
              · simp [coinBuffers, coinBuffer, hconst, hdepth, hmore.supply]
              · rw [hmore.buffers, Members.map_buffers_grow, hdepth]
                simp
          | introduced depth channel hdepth =>
              rcases hfirst with ⟨hchannel, hmid⟩
              have hchannel : channel
                  = (ns.plain (normalizeChannel (s.nameOf out) ++ "_buf")).1 := hchannel
              have hmid : mid = (ns.plain (normalizeChannel (s.nameOf out) ++ "_buf")).2 := hmid
              rw [hmid] at hmore
              refine ⟨hmore.labels.trans hsources.symm, hnames, ?_, ?_⟩
              · simp [coinBuffers, coinBuffer, hconst, hdepth, hmore.supply, hlabel, ← hchannel]
              · rw [hmore.buffers, Members.map_buffers_grow, hdepth]
                simp

/-- There is a unit exactly if there is an output that is no source. -/
theorem outputLabels_eq_nil_iff {element : String} {clustered : Bool}
    {funcs : List (Func ChannelId Expr)} {ms : Members}
    (h : Gathered s element clustered 0 funcs .empty ms τ) :
    outputLabels s funcs = [] ↔ ms.builder.statements.isEmpty = true := by
  -- A unit has a wire for each of its outputs.
  have hcount : ms.wires.length = (outputLabels s funcs).length := by
    rw [outputLabels, List.length_map, gathered_wires h]
    exact Nat.zero_add _
  rw [← (gathered_sound h sound_empty).wires_eq_nil_iff, ← List.length_eq_zero_iff, ← hcount,
    List.length_eq_zero_iff]

/-- The labels of a unit and its buffers. -/
theorem sites_label {element : String} {clustered : Bool} {funcs : List (Func ChannelId Expr)}
    {ms : Members} (h : Gathered s element clustered 0 funcs .empty ms τ)
    (hnames : GathersNames s funcs .empty ms ns ns' τ) (inputs : List String) :
    (ms.sites inputs).map Site.label
      = unitLabels s funcs ++ (τ.declared.map ChanDecl.name).map (· ++ "_inst") := by
  have hempty := outputLabels_eq_nil_iff h
  have houtputs : ms.names = outputLabels s funcs := hnames.names
  have hbuffers : ms.buffers.map PendingBuffer.channel = τ.declared.map ChanDecl.name :=
    hnames.buffers
  unfold Members.sites unitLabels
  -- Without a statement there is no unit, and no buffer either.
  by_cases hstated : ms.builder.statements.isEmpty = true
  · rw [if_pos hstated, if_pos (hempty.mpr hstated), ← hbuffers,
      (gathered_sound h sound_empty).buffers_eq_nil hstated]
    rfl
  · rw [if_neg hstated, if_neg fun hnil => hstated (hempty.mp hnil), ← hbuffers, ← houtputs,
      List.map_cons, List.map_map, List.map_map]
    rfl

/-- An element gives the names that it coins. -/
theorem ElementTrace.coins {el : Element ChannelId Expr} (h : ElementTrace s observed el τ)
    (hg : ns.Gives τ.drawn ns') : el.coin s observed (τ.served.map Prod.snd) ns
      = ⟨τ.sites.map Site.label, τ.declared.map ChanDecl.name, ns'⟩ := by
  cases h with
  | split guard input outputs pipeline inputWire guardWire r houts =>
      -- Sinks are labelled by the wires they consume, and these are the channels that were
      -- introduced.
      have hsinks : (r.sunk.map (sinkSite (s.widthOf input))).map Site.label
          = r.sunk.map sinkLabel := by
        rw [List.map_map]
        rfl
      have hnames : (r.sunk.map fun wire => (⟨wire, .int (s.widthOf input)⟩ : ChanDecl)).map
          ChanDecl.name = r.sunk := by
        rw [List.map_map]
        exact List.map_id r.sunk
      unfold Element.coin
      simp only [houts.coins hg, List.map_cons, List.map_nil, hsinks, Trace.sunk_declared, hnames]
      simp [String.join]
  | join el pipeline c outs served hjoin hserved =>
      have hns : ns' = ns := hg
      rw [hns]
      cases el <;> cases hjoin <;> rfl
  | sink input wire =>
      have hns : ns' = ns := hg
      rw [hns]
      rfl
  | members el clustered funcs served ms τ hmembers hserved hgather =>
      have hnames := gathered_coins hgather hg
      -- What members coin does not depend on the wires that serve them.
      have hcoin : ∀ ws, el.coin s observed ws ns = coinMembers s funcs ns := by
        intro ws
        cases el with
        | func f => cases hmembers; rfl
        | cluster fs => cases hmembers; rfl
        | _ => cases hmembers
      rw [hcoin, coinMembers, List.map_append, hnames.labels, sites_label hgather hnames]
      simp only [hnames.supply]

/-- Elements give the names that they coin one after another. -/
theorem Traced.coins {els : List (Element ChannelId Expr)} (h : Traced s observed els τ)
    (hg : ns.Gives τ.drawn ns') : coinAll s observed els (τ.served.map Prod.snd) ns
      = ⟨τ.sites.map Site.label, τ.declared.map ChanDecl.name, ns'⟩ := by
  induction h generalizing ns with
  | nil =>
      rw [hg]
      rfl
  | cons el els τ τ' hel hrest ih =>
      rcases NameSupply.gives_append.mp hg with ⟨mid, hfirst, hg⟩
      -- An element takes as many wires as it has reads, and the rest is served after it.
      have hlength : (τ.served.map Prod.snd).length = el.reads.length := by
        rw [← hel.served, List.length_map, List.length_map]
      unfold coinAll
      simp only [Trace.served_append, Trace.sites_append, Trace.declared_append, List.map_append,
        List.take_left' hlength, List.drop_left' hlength, hel.coins hfirst, ih hg]

end Traces

end Lowering

end DataflowCircuit
