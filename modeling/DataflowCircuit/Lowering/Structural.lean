import DataflowCircuit.Lowering.Step

/-!
# Splits, Joins and Sinks

The elements that route tokens. Each becomes an instance of a template that
is named after its kind and its number of data ports and parameterized by
widths, and its cost has to be known.

A split output that nobody observes still delivers tokens, so a fresh channel
and a sink take them. That is the case for an output that is unconnected, and
for a channel that is neither read nor a port.

## Main definitions

* `sinkWire`: Consume a wire.
* `lowerSink`, `lowerSplit`, `lowerMerge`, `lowerMixer`, `lowerArbiter`: The
  elements.
-/

namespace DataflowCircuit

namespace Lowering

/-- The template name of a routing element with `n` data ports. -/
def structuralName (pipeline : Bool) (kind : String) (n : Nat) : String :=
  (if pipeline then "pipe" else "unpipe") ++ s!"_{kind}{n}"

/-- The wires that serve the reads of an element, in order. -/
def wires (el : Element ChannelId Expr) : Step (List String) := do
  return (← resolveReads el).map Prod.snd

/-- Is anything that is written to a channel observed? -/
def isConsumed (sub : Subject) (id : ChannelId) : Bool :=
  sub.uses.isRead id || (sub.scope.channel? id).any (·.kind.isPort)

/-- The instance key of a sink. -/
def sinkKey (width : Nat) : String :=
  s!"sink<{width}>"

/-- Consume a wire. -/
def sinkWire (wire : String) (width : Nat) : Step Unit := do
  let key := sinkKey width
  let cost ← onSession (Session.requireCost key)
  emit ⟨"sink", .sink⟩ (some cost) [⟨"x", cost.delay, cost.energy⟩]
    ⟨key, normalizeChannel wire ++ "_sink", [wire]⟩

/-- Consume wires in order. -/
def sinkWires (width : Nat) : List String → Step Unit
  | [] => return ()
  | wire :: rest => do
    sinkWire wire width
    sinkWires width rest

/-- Lower a sink. -/
def lowerSink (sub : Subject) (el : Element ChannelId Expr) (input : ChannelId) :
    Step Unit := do
  let width ← lift (sub.scope.width input)
  sinkWires width (← wires el)

/-- The outputs of a split as they are connected: the wires in order, the part
    of the instance name they contribute, and the wires to be sunk. -/
structure SplitOutputs where
  name : String
  wires : List String
  sunk : List String

/-- Connect the outputs of a split one after another. -/
def connectOutputs (sub : Subject) (element : String) (width : Nat) :
    List (Option ChannelId) → Step SplitOutputs
  | [] => return ⟨"", [], []⟩
  | out :: outs => do
    match out.filter (isConsumed sub) with
    | some id =>
      let wire := sub.scope.nameOf id
      let rest ← connectOutputs sub element width outs
      return ⟨normalizeChannel wire ++ rest.name, wire :: rest.wires, rest.sunk⟩
    | none =>
      match out with
      | some id => onSession (Session.warn [.neverRead (sub.scope.nameOf id) element])
      | none => pure ()
      let wire ← draw (.numbered "sink")
      declareChannel wire width
      let rest ← connectOutputs sub element width outs
      return ⟨"sink_" ++ rest.name, wire :: rest.wires, wire :: rest.sunk⟩

/-- Lower a split. -/
def lowerSplit (sub : Subject) (el : Element ChannelId Expr) (guard input : ChannelId)
    (outputs : List (Option ChannelId)) : Step Unit := do
  let guardWidth ← lift (sub.scope.width guard)
  let width ← lift (sub.scope.width input)
  let n := outputs.length
  let name := structuralName (← get).session.pipeline "split" n
  let key := s!"{name}<{guardWidth},{width}>"
  let cost ← onSession (Session.requireCost key)
  match ← wires el with
  | [inputWire, guardWire] =>
    let outs ← connectOutputs sub (el.print sub.scope) width outputs
    let instName :=
      normalizeChannel inputWire ++ normalizeChannel guardWire ++ outs.name ++ "_inst"
    let costs := (List.range n).map fun i => ⟨s!"out{i}", cost.delay, cost.energy⟩
    emit ⟨name, .split n⟩ (some cost) costs
      ⟨key, instName, guardWire :: inputWire :: outs.wires⟩
    sinkWires width outs.sunk
  | ws => throw (.inconsistentGraph (.splitReads ws.length))

/-- Write a join that reads `inputs` and writes the channels `outs`. -/
def join (sub : Subject) (template : Template) (key : String) (inputs : List String)
    (outs : List ChannelId) : Step Unit := do
  let cost ← onSession (Session.requireCost key)
  let outWires := outs.map sub.scope.nameOf
  let name := (outWires.head?.map fun w => normalizeChannel w ++ "_inst").getD ""
  emit template (some cost) [⟨"out", cost.delay, cost.energy⟩] ⟨key, name, inputs ++ outWires⟩

/-- Lower a merge. -/
def lowerMerge (sub : Subject) (el : Element ChannelId Expr) (guard : ChannelId)
    (inputs : List ChannelId) (out : ChannelId) : Step Unit := do
  let guardWidth ← lift (sub.scope.width guard)
  let width ← lift (sub.scope.width out)
  let n := inputs.length
  let name := structuralName (← get).session.pipeline "merge" n
  let ws ← wires el
  join sub ⟨name, .merge n⟩ s!"{name}<{guardWidth},{width}>" ws [out]

/-- Lower a mixer. -/
def lowerMixer (sub : Subject) (el : Element ChannelId Expr) (inputs : List ChannelId)
    (out : ChannelId) : Step Unit := do
  let width ← lift (sub.scope.width out)
  let n := inputs.length
  let name := structuralName (← get).session.pipeline "mixer" n
  let ws ← wires el
  join sub ⟨name, .mixer n⟩ s!"{name}<{width}>" ws [out]

/-- Lower an arbiter. -/
def lowerArbiter (sub : Subject) (el : Element ChannelId Expr) (inputs : List ChannelId)
    (out ctrl : ChannelId) : Step Unit := do
  let width ← lift (sub.scope.width out)
  let ctrlWidth ← lift (sub.scope.width ctrl)
  let n := inputs.length
  let name := structuralName (← get).session.pipeline "arbiter" n
  let ws ← wires el
  join sub ⟨name, .arbiter n⟩ s!"{name}<{width},{ctrlWidth}>" ws [out, ctrl]

end Lowering

end DataflowCircuit
