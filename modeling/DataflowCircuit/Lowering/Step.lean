import DataflowCircuit.Analysis.CopyPlan
import DataflowCircuit.Lowering.Netlist
import DataflowCircuit.Lowering.Session
import DataflowCircuit.NameSupply

/-!
# Lowering Steps

Lowering a process works on the session of the run, the copy plan and the
name supply of the process, and the output so far. Reads are served in the
order in which they were counted, and every instance goes through `emit`,
which is the one place where templates and cost blocks are written and costs
counted.

## Main definitions

* `Lowering`: The state of lowering one process.
* `Lowering.Step`: A computation on it.
* `Subject`: The process and its counts, which do not change.
* `resolveReads`: The wires that serve the reads of an element.
* `sourceOf`: The wire that serves a channel.
* `draw`, `declareChannel`: Introduce a channel under a fresh name.
* `register`, `emit`: Write an instance.
-/

namespace DataflowCircuit

/-- The state of lowering one process. -/
structure Lowering where
  session : Session
  plan : CopyPlan
  names : NameSupply
  out : LoweredProcess

/-- The process that is lowered and how often its channels are read. -/
structure Subject where
  process : Process
  uses : UseCounts

/-- The scope of the process that is lowered. -/
def Subject.scope (sub : Subject) : Scope :=
  sub.process.scope

namespace Lowering

/-- A computation that changes the state of lowering and may fail, keeping the
    changes made before. -/
abbrev Step := EStateM Error Lowering

/-- A result or failure without a change. -/
def lift {α : Type} : Except Error α → Step α
  | .ok a => pure a
  | .error e => throw e

/-- A step of the session. -/
def onSession {α : Type} (step : Session.Step α) : Step α := fun l =>
  match step l.session with
  | .ok a s => .ok a { l with session := s }
  | .error e s => .error e { l with session := s }

/-- Change the output. -/
def output (f : LoweredProcess → LoweredProcess) : Step Unit :=
  modify fun l => { l with out := f l.out }

/-- The wire that serves the next read of a channel. -/
def serve (id : ChannelId) : Step String := do
  let l ← get
  let (wire, plan) ← lift (l.plan.next id)
  set { l with plan }
  return wire

/-- The wires that serve reads in order, each with its channel. -/
def serveAll : List ChannelId → Step (List (ChannelId × String))
  | [] => return []
  | id :: ids => do
    let wire ← serve id
    return (id, wire) :: (← serveAll ids)

/-- The wires that serve the reads of an element. -/
def resolveReads (el : Element ChannelId Expr) : Step (List (ChannelId × String)) :=
  serveAll el.reads

/-- The wire that serves a channel of an element. -/
def sourceOf (s : Scope) (sources : List (ChannelId × String)) (id : ChannelId) :
    Except Error String :=
  match sources.lookup id with
  | some wire => .ok wire
  | none => .error (.inconsistentGraph (.neverResolved (s.nameOf id)))

/-- Draw a fresh channel name from the supply. -/
def draw (request : NameSupply.Request) : Step String := do
  let (name, names) := (← get).names.answer request
  modify fun l => { l with names }
  return name

/-- Declare a channel that lowering introduced. -/
def declareChannel (name : String) (width : Nat) : Step Unit :=
  output fun out => { out with channels := out.channels ++ [⟨name, .int width⟩] }

/-- Write the template and the cost block of an instance if they are new, and
    count its cost. -/
def register (template : Template) (cost : Option Cost) (ports : List PortCost)
    (key : String) : Step Unit := do
  if ← onSession (Session.addTemplate template.name) then
    output fun out => { out with templates := out.templates ++ [template] }
  if ← onSession (Session.addInstance key) then
    output fun out => { out with costBlocks := out.costBlocks ++ [⟨key, ports, cost⟩] }
  match cost with
  | some cost => onSession (Session.recordCost key cost)
  | none => return ()

/-- Write an instance. -/
def emit (template : Template) (cost : Option Cost) (ports : List PortCost) (inst : Instance) :
    Step Unit := do
  register template cost ports inst.key
  output fun out => { out with instances := out.instances ++ [inst] }

/-- The port costs of an element with one input and one output: the output
    carries everything. -/
def throughCosts (cost : Cost) : List PortCost :=
  [⟨"in", 0, 0⟩, ⟨"out", cost.delay, cost.energy⟩]

end Lowering

end DataflowCircuit
