import DataflowCircuit.FunctionalUnit.Builder
import DataflowCircuit.Lowering.Step

/-!
# Functions and Clusters

A function becomes a functional unit, and the functions of a cluster become
one unit together. A member whose body is a constant becomes a source
instead. An output with a buffer of positive depth goes through a fresh
channel and a buffer instance; its initial token is sent by the unit itself.

## Main definitions

* `lowerSource`: A constant that is sent forever.
* `Members`: The members of a unit gathered so far.
* `addMember`, `addMembers`: Gather members.
* `lowerFuncs`: Lower a function or a cluster.
-/

namespace DataflowCircuit

namespace Lowering

/-- The instance key of a source. -/
def sourceKey (value width : Nat) : String :=
  s!"source<{value},{width}>"

/-- The key under which sources of a width have a cost whatever they send. -/
def genericSourceKey (width : Nat) : String :=
  s!"source{width}"

/-- The cost of a source: that of its value, or that of its width. -/
def sourceCost (value width : Nat) : Session.Step Cost := do
  match (← get).metrics.lookup (sourceKey value width) with
  | some cost => return cost
  | none => Session.requireCost (genericSourceKey width)

/-- Send a constant forever on a channel. -/
def lowerSource (sub : Subject) (element : String) (value : Nat) (out : ChannelId) :
    Step Unit := do
  let width ← lift (sub.scope.width out)
  if ¬ Fits value width then throw (.malformedElement element (.wideConstant value width))
  let cost ← onSession (sourceCost value width)
  let wire := sub.scope.nameOf out
  emit ⟨"source", .source⟩ (some cost) [⟨"x", cost.delay, cost.energy⟩]
    ⟨sourceKey value width, normalizeChannel wire ++ "_inst", [wire]⟩

/-- A buffer that is to be written behind a unit: the position of the output,
    its width, depth and initial token, the channel in front of the buffer and
    the channel behind it. -/
structure PendingBuffer where
  output : Nat
  width : Nat
  depth : Nat
  init : Option Nat
  channel : String
  target : String

/-- The members of a unit gathered so far. -/
structure Members where
  builder : UnitBuilder
  outputs : List UnitOutput
  /-- The channel that each output drives. -/
  wires : List String
  /-- The declared outputs as they stand in the instance name. -/
  names : List String
  buffers : List PendingBuffer

/-- No members yet. -/
def Members.empty : Members :=
  ⟨.empty, [], [], [], []⟩

/-- Run a step of a unit builder. -/
def onBuilder {α : Type} (step : UnitBuilder.Step α) (b : UnitBuilder) :
    Step (α × UnitBuilder) :=
  match step b with
  | .ok a b => return (a, b)
  | .error e _ => throw e

/-- The value of the initial token of a function. -/
def initialToken (f : Func ChannelId Expr) : Option Nat :=
  (f.buffer.bind Buffer.init).bind Expr.asConst?

/-- The pieces of the unit name that follow the operations of a member. -/
def memberTokens (clustered : Bool) (position width : Nat) (init : Option Nat) :
    List NameToken :=
  (init.elim [] fun v => [.init v]) ++ [.width width] ++
    if clustered then [.member position] else []

/-- The depth of a buffer that needs an instance. -/
def bufferDepth? (f : Func ChannelId Expr) : Option Nat :=
  (f.buffer.map Buffer.depth).filter (0 < ·)

/-- The channel that an output drives: the declared one, or a fresh one in
    front of a buffer. -/
def driveOutput (f : Func ChannelId Expr) (wire : String) (width : Nat) : Step String := do
  match bufferDepth? f with
  | none => return wire
  | some _ =>
    let channel ← draw (.plain (normalizeChannel wire ++ "_buf"))
    declareChannel channel width
    return channel

/-- Gather the member at a position. -/
def addMember (sub : Subject) (element : String) (clustered : Bool) (position : Nat)
    (f : Func ChannelId Expr) (ms : Members) : Step Members := do
  let some out := f.output | throw (.malformedElement element .noOutput)
  let width ← lift (sub.scope.width out)
  let wire := sub.scope.nameOf out
  match f.expr.asConst? with
  | some value =>
    lowerSource sub element value out
    return ms
  | none =>
    let (result, builder) ← onBuilder (f.expr.lowerOutput sub.scope element width) ms.builder
    let init := initialToken f
    if let some v := init then
      if ¬ Fits v width then throw (.malformedElement element (.wideToken v width))
    let tokens := memberTokens clustered position width init
    let channel ← driveOutput f wire width
    let buffers := (bufferDepth? f).elim [] fun depth =>
      [{ output := ms.outputs.length, width, depth, init, channel, target := wire }]
    return {
      builder := { builder with name := builder.name ++ tokens }
      outputs := ms.outputs ++ [⟨result, width, init⟩]
      wires := ms.wires ++ [channel]
      names := ms.names ++ [normalizeChannel wire]
      buffers := ms.buffers ++ buffers }

/-- Gather members in order from a position on. -/
def addMembers (sub : Subject) (element : String) (clustered : Bool) :
    Nat → List (Func ChannelId Expr) → Members → Step Members
  | _, [], ms => return ms
  | position, f :: fs, ms => do
    let ms ← addMember sub element clustered position f ms
    addMembers sub element clustered (position + 1) fs ms

/-- The costs of buffers in order. -/
def bufferCosts : List PendingBuffer → Step (List Cost)
  | [] => return []
  | b :: bs => do
    let cost ← onSession (Session.requireCost (bufferKey b.depth b.width))
    return cost :: (← bufferCosts bs)

/-- The buffer behind an output, with its cost. -/
def PendingBuffer.toOutput (b : PendingBuffer) (cost : Cost) : BufferedOutput :=
  { output := b.output, width := b.width, depth := b.depth, init := b.init, cost }

/-- Write a buffer instance. -/
def emitBuffer (b : PendingBuffer) (cost : Cost) : Step Unit :=
  emit ⟨"buffer", .buffer⟩ (some cost) (throughCosts cost)
    ⟨bufferKey b.depth b.width, b.channel ++ "_inst", [b.channel, b.target]⟩

/-- Write buffer instances in order. -/
def emitBuffers : List (PendingBuffer × Cost) → Step Unit
  | [] => return ()
  | (b, cost) :: rest => do
    emitBuffer b cost
    emitBuffers rest

/-- The port costs of a unit: every output carries the delay and an equal part
    of the energy. -/
def unitPortCosts (fu : FunctionalUnit) (cost : Option Cost) : List PortCost :=
  cost.elim [] fun c =>
    (List.range fu.outputs.length).map fun i =>
      ⟨s!"out{i}", c.delay, c.energy.tdiv fu.outputs.length⟩

/-- Write the unit of the gathered members. -/
def emitUnit (sub : Subject) (sources : List (ChannelId × String)) (ms : Members) :
    Step Unit := do
  let costs ← bufferCosts ms.buffers
  let unnamed : FunctionalUnit := {
    name := unitName ms.builder.name
    argWidths := ms.builder.argWidths
    statements := ms.builder.statements
    outputs := ms.outputs
    buffers := List.zipWith PendingBuffer.toOutput ms.buffers costs }
  let name ← onSession (Session.disambiguate unnamed.name unnamed.body)
  let fu := { unnamed with name }
  let cost ← onSession (Session.unitCost fu ms.builder.graph)
  let inputs ← lift (traverseList (sourceOf sub.scope sources) ms.builder.args)
  emit ⟨fu.name, .func fu⟩ cost (unitPortCosts fu cost)
    ⟨fu.key, String.intercalate "_" ms.names ++ "_inst", inputs ++ ms.wires⟩
  emitBuffers (ms.buffers.zip costs)

/-- Lower a function, or the functions of a cluster. A cluster of constants
    has no unit. -/
def lowerFuncs (sub : Subject) (el : Element ChannelId Expr) (clustered : Bool)
    (funcs : List (Func ChannelId Expr)) : Step Unit := do
  let sources ← resolveReads el
  let ms ← addMembers sub (el.print sub.scope) clustered 0 funcs .empty
  if ms.builder.statements.isEmpty then return ()
  emitUnit sub sources ms

end Lowering

end DataflowCircuit
