import DataflowCircuit.Channel
import DataflowCircuit.FunctionalUnit.Basic

/-!
# Lowered Processes

The result of lowering a process: its declarations, the copies and instances
that make it up, and the templates and cost blocks that no earlier process of
the run has brought along.

## Main definitions

* `Instance`: One use of a template.
* `TemplateBody`, `Template`: What an instance is an instance of.
* `PortCost`, `CostBlock`: The cost of an instance key, by port.
* `PortDecl`, `ChanDecl`: The declarations of a process.
* `LoweredProcess`: All of it.
-/

namespace DataflowCircuit

/-- One use of a template: `key name(ports)`. -/
structure Instance where
  /-- The template name with its parameters. -/
  key : String
  name : String
  ports : List String
  deriving DecidableEq, Repr

/-- What a template implements. -/
inductive TemplateBody where
  | copy
  | sink
  | source
  | buffer
  | split (outputs : Nat)
  | merge (inputs : Nat)
  | mixer (inputs : Nat)
  | arbiter (inputs : Nat)
  | func (fu : FunctionalUnit)
  deriving DecidableEq, Repr

/-- A named template. -/
structure Template where
  name : String
  body : TemplateBody
  deriving DecidableEq, Repr

/-- Delay and energy charged to a port. -/
structure PortCost where
  name : String
  delay : Int
  energy : Int
  deriving DecidableEq, Repr

/-- The cost of an instance key. -/
structure CostBlock where
  key : String
  ports : List PortCost
  /-- Nothing for functional units that nobody estimated. -/
  cost : Option Cost
  deriving DecidableEq, Repr

/-- A declared port; an array is declared once. -/
structure PortDecl where
  name : String
  direction : Direction
  type : ChannelType
  deriving DecidableEq, Repr

/-- A declared channel; an array is declared once. -/
structure ChanDecl where
  name : String
  type : ChannelType
  deriving DecidableEq, Repr

/-- Everything that is written out for a process. -/
structure LoweredProcess where
  name : String
  ports : List PortDecl
  /-- Declared channels, then those that lowering introduced. -/
  channels : List ChanDecl
  /-- Names that are not roots, each with its root. -/
  aliases : List (String × String)
  copies : List Instance
  instances : List Instance
  /-- Templates that occur for the first time in the run. -/
  templates : List Template
  /-- Cost blocks that occur for the first time in the run. -/
  costBlocks : List CostBlock
  deriving DecidableEq, Repr

end DataflowCircuit
