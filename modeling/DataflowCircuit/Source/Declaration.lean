import DataflowCircuit.Source.Program

/-!
# Declarations of Arrays

A declaration can name an array of channels by its length. Such a declaration
is kept as it is written until the whole text is known to be a program, and
expanded only then, so a length costs nothing in a text that is refused.

## Main definitions

* `DeclaredName`: A declared channel or array of channels.
* `DeclaredName.expand`: The channel names it stands for.
* `PortGroup`, `BodyItem`: Declarations that share a type.
* `CompactProcess`: A process with its declarations as they are written.
* `CompactProcess.expand`: The process with one declaration per channel.
-/

namespace DataflowCircuit

namespace Source

/-- A declared channel, or an array of channels if it has a length. -/
structure DeclaredName where
  path : String
  length : Option Nat
  deriving DecidableEq, Repr

/-- The channel names that a declared name stands for. -/
def DeclaredName.expand (d : DeclaredName) : List String :=
  match d.length with
  | none => [d.path]
  | some length => (List.range length).map fun i => s!"{d.path}[{i}]"

/-- The channel names that declared names stand for, in order. -/
def expandNames (names : List DeclaredName) : List String :=
  names.flatMap DeclaredName.expand

/-- Ports with one direction and type. -/
structure PortGroup where
  direction : Direction
  type : ChannelType
  names : List DeclaredName
  deriving DecidableEq, Repr

/-- The ports of a group. -/
def PortGroup.expand (g : PortGroup) : List Port :=
  (expandNames g.names).map fun name =>
    { name, direction := g.direction, type := g.type }

/-- An item of a process body before its dataflow block. -/
inductive BodyItem where
  | declarations (type : ChannelType) (names : List DeclaredName)
  | alias (a : Alias)
  deriving DecidableEq, Repr

namespace BodyItem

/-- The channels that an item declares. -/
def expand : BodyItem → List Declaration
  | .declarations type names => (expandNames names).map fun name => { name, type }
  | .alias _ => []

/-- The alias that an item is. -/
def alias? : BodyItem → Option Alias
  | .declarations .. => none
  | .alias a => some a

end BodyItem

/-- A process with its declarations as they are written. -/
structure CompactProcess where
  name : String
  ports : List PortGroup
  items : List BodyItem
  statements : List Statement
  deriving DecidableEq, Repr

/-- The process with one declaration per channel. -/
def CompactProcess.expand (p : CompactProcess) : Process where
  name := p.name
  ports := p.ports.flatMap PortGroup.expand
  declarations := p.items.flatMap BodyItem.expand
  aliases := p.items.filterMap BodyItem.alias?
  statements := p.statements

end Source

end DataflowCircuit
