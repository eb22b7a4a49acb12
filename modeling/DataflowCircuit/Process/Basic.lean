import DataflowCircuit.Element
import DataflowCircuit.Expr
import DataflowCircuit.Scope

/-!
# Processes

A process is a scope and a list of elements over its channels. It is made
from declarations, aliases and elements, and the last step replaces every
reference by the root of its wire, so that later passes can compare
identities directly.

## Main definitions

* `Process`: A process.
* `Process.ports`: The channels of the signature.
* `Process.locals`: The channels that are not in the signature.
* `Scope.declareAll`, `Scope.connectAll`: Many declarations or aliases.
* `Process.finish`: A process with canonical references.
* `ProcessDraft`: A process as declarations, aliases and elements.
* `ProcessDraft.build`: The process that a draft describes.
* `Program`: The processes of a program.
-/

namespace DataflowCircuit

/-- A dataflow process. -/
structure Process where
  name : String
  scope : Scope
  elements : List (Element ChannelId Expr)
  deriving DecidableEq, Repr

/-- A channel that is to be declared. -/
structure NewChannel where
  name : String
  type : ChannelType
  kind : ChannelKind
  deriving DecidableEq, Repr

namespace Scope

/-- The identities whose channel is part of the signature, in order. -/
def ports (s : Scope) : List ChannelId :=
  s.ids.filter fun id => (s.channel? id).any (·.kind.isPort)

/-- The identities whose channel is not part of the signature, in order. -/
def locals (s : Scope) : List ChannelId :=
  s.ids.filter fun id => (s.channel? id).any (!·.kind.isPort)

/-- Declare channels in order. -/
def declareAll (s : Scope) (channels : List NewChannel) : Except Error Scope :=
  channels.foldlM (fun s c => s.declare c.name c.type c.kind) s

/-- Connect pairs of names in order. -/
def connectAll (s : Scope) (aliases : List (String × String)) : Except Error Scope :=
  aliases.foldlM (fun s a => s.connect a.1 a.2) s

end Scope

namespace Process

/-- The channels of the signature, in order. -/
def ports (p : Process) : List ChannelId :=
  p.scope.ports

/-- The channels that are not in the signature, in order. -/
def locals (p : Process) : List ChannelId :=
  p.scope.locals

/-- A process whose references are all canonical. -/
def finish (name : String) (scope : Scope) (elements : List (Element ChannelId Expr)) :
    Process :=
  { name, scope,
    elements := elements.map (Element.map scope.canonical (Expr.map scope.canonical)) }

end Process

/-- A process as its declarations and aliases, in order, and elements over the
    declared identities. -/
structure ProcessDraft where
  name : String
  channels : List NewChannel
  aliases : List (String × String)
  elements : List (Element ChannelId Expr)
  deriving DecidableEq, Repr

/-- The process that a draft describes. -/
def ProcessDraft.build (d : ProcessDraft) : Except Error Process := do
  let scope ← Scope.empty.declareAll d.channels
  let scope ← scope.connectAll d.aliases
  return .finish d.name scope d.elements

/-- The processes of a program in order. -/
abbrev Program := List Process

end DataflowCircuit
