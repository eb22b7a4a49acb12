import DataflowCircuit.Channel
import DataflowCircuit.Error
import DataflowCircuit.Width

/-!
# Scopes

The channels of one process. A channel is known by its position in
declaration order, its identity, and every name is declared once.

Aliases put channels on one wire. Every channel knows the earliest declared
channel of its wire, its root, and all later work is done on roots: two names
denote the same wire exactly if they have the same root. Connecting two wires
hands the later root's channels to the earlier one, so the root of a wire is
found in one step, and the invariant that a root is its own root needs no
search to be used.

Both operations that can fail leave nothing behind when they do, because they
return a new scope only if they succeed.

## Main definitions

* `ChannelId`: The identity of a channel within its process.
* `Channel`: A declared channel.
* `Scope`: The channels of a process.
* `Scope.declare`: Add a channel.
* `Scope.connect`: Put two names on one wire.
* `Scope.lookup`: The identity a name was declared with.
* `Scope.canonical`: The root of a channel's wire.
* `Scope.resolve`: The root of a name's wire.
* `Scope.width`: The width of a root.
-/

namespace DataflowCircuit

/-- The identity of a channel: its position in declaration order. -/
abbrev ChannelId := Nat

/-- A declared channel. -/
structure Channel where
  name : String
  type : ChannelType
  kind : ChannelKind
  /-- The earliest declared channel on the same wire. -/
  root : ChannelId
  deriving DecidableEq, Repr

/-- The number of bits a channel carries. -/
def Channel.width (c : Channel) : Nat :=
  c.type.width

/-- The channels of a process in declaration order. -/
structure Scope where
  channels : List Channel
  deriving DecidableEq, Repr

namespace Scope

/-- A scope without channels. -/
def empty : Scope :=
  ⟨[]⟩

/-- The number of declared channels, which is the next identity. -/
def size (s : Scope) : Nat :=
  s.channels.length

/-- The channel with an identity. -/
def channel? (s : Scope) (id : ChannelId) : Option Channel :=
  s.channels[id]?

/-- The declared names in order. -/
def names (s : Scope) : List String :=
  s.channels.map Channel.name

/-- The declared identities in order. -/
def ids (s : Scope) : List ChannelId :=
  List.range s.size

/-- The declared name of an identity; other identities have none. -/
def nameOf (s : Scope) (id : ChannelId) : String :=
  match s.channel? id with
  | some c => c.name
  | none => "<unknown>"

/-- Declare a channel of its own wire. The width is checked before the
    name. -/
def declare (s : Scope) (name : String) (type : ChannelType) (kind : ChannelKind) :
    Except Error Scope :=
  if !isChannelWidth type.width then
    .error (.malformedElement ("chan(" ++ type.text ++ ") " ++ name) .channelWidth)
  else if s.channels.any (·.name = name) then .error (.alreadyBound name .channel)
  else .ok ⟨s.channels ++ [{ name, type, kind, root := s.size }]⟩

/-- The identity a name was declared with. -/
def lookup (s : Scope) (name : String) : Except Error ChannelId :=
  match s.channels.findIdx? (·.name = name) with
  | some id => .ok id
  | none => .error (.undefinedName name .channel)

/-- The root of the wire of a channel. An identity that was never declared is
    on a wire of its own. -/
def canonical (s : Scope) (id : ChannelId) : ChannelId :=
  match s.channel? id with
  | some c => c.root
  | none => id

/-- Is the identity the root of its wire? -/
def isCanonical (s : Scope) (id : ChannelId) : Bool :=
  s.canonical id = id

/-- The root of the wire of a name. -/
def resolve (s : Scope) (name : String) : Except Error ChannelId := do
  return s.canonical (← s.lookup name)

/-- The width recorded for an identity, which only the roots have. -/
def width? (s : Scope) (id : ChannelId) : Option Nat :=
  if s.isCanonical id then (s.channel? id).map Channel.width else none

/-- The width of a root; asking for another identity is an error. -/
def width (s : Scope) (id : ChannelId) : Except Error Nat :=
  match s.width? id with
  | some w => .ok w
  | none => .error (.inconsistentGraph (.noWidth (s.nameOf id)))

/-- The declared roots in order. -/
def roots (s : Scope) : List ChannelId :=
  s.ids.filter s.isCanonical

/-- Hand every channel on the wire of `child` to the wire of `root`. -/
def join (s : Scope) (root child : ChannelId) : Scope :=
  ⟨s.channels.map fun c => if c.root = child then { c with root } else c⟩

/-- Put two declared names on one wire, if the wires have the same width. The
    earlier root becomes the root of both. -/
def connect (s : Scope) (lhs rhs : String) : Except Error Scope := do
  let l ← s.resolve lhs
  let r ← s.resolve rhs
  if l = r then return s
  let lw := ((s.channel? l).map Channel.width).getD 0
  let rw := ((s.channel? r).map Channel.width).getD 0
  if lw ≠ rw then throw (.inconsistentGraph (.widthsDiffer lhs lw rhs rw))
  return s.join (min l r) (max l r)

end Scope

end DataflowCircuit
