/-!
# Channels

Processes talk over channels. A channel has a type, which fixes its width,
and a place in the process: it belongs to the signature with a direction, it
is declared in the body, or lowering introduced it.

## Main definitions

* `Direction`: The direction of a port.
* `ChannelType`: What a channel carries.
* `ChannelKind`: Where a channel comes from.
-/

namespace DataflowCircuit

/-- The direction of a process port. -/
inductive Direction where
  | input
  | output
  deriving DecidableEq, Repr

/-- The mark of a direction in a signature. -/
def Direction.symbol : Direction → String
  | .input => "?"
  | .output => "!"

/-- What a channel carries: numbers of a width, or truth values. -/
inductive ChannelType where
  | int (width : Nat)
  | bool
  deriving DecidableEq, Repr

namespace ChannelType

/-- The number of bits a channel of the type carries. -/
def width : ChannelType → Nat
  | .int w => w
  | .bool => 1

/-- The type as written in a declaration. -/
def text : ChannelType → String
  | .int w => s!"int<{w}>"
  | .bool => "bool"

end ChannelType

/-- Where a channel comes from. -/
inductive ChannelKind where
  /-- Part of the signature. -/
  | port (direction : Direction)
  /-- Declared in the body. -/
  | internal
  /-- Introduced by lowering. -/
  | synthesized
  deriving DecidableEq, Repr

/-- Is the channel part of the signature? -/
def ChannelKind.isPort : ChannelKind → Bool
  | .port _ => true
  | _ => false

end DataflowCircuit
