import DataflowCircuit.Operator
import DataflowCircuit.Text.Blank
import DataflowCircuit.Text.Digits

/-!
# Generated Names

Instance keys, channel names inside identifiers, and the names of functional
units.

A functional unit is named after what it computes: one token per operation,
then the width of the output, and so on for every member of a cluster. Two
operands of a token are told apart because an operand starts with a digit, an
`r` or a `c`, and the mark of a repeated operand is none of these.

## Main definitions

* `normalizeKey`: A key with its delimiters and blanks replaced.
* `normalizeChannel`: A channel name as part of an identifier.
* `NameToken`: One piece of a unit name.
* `NameToken.text`: The spelling of a piece.
* `unitName`: The name that a list of pieces spells.
* `hasBody`: Does a name say what the unit computes?
-/

namespace DataflowCircuit

/-- Map the delimiters of a key, and blanks, to underscores. -/
def normalizeKeyChar (c : Char) : Char :=
  if c = '<' || c = '>' || c = ',' || Text.isBlank c then '_' else c

/-- A key with its delimiters and blanks replaced, as metrics are stored under
    it. -/
def normalizeKey (key : String) : String :=
  String.ofList (key.toList.map normalizeKeyChar)

/-- The spelling of a channel name's character inside an identifier. -/
def normalizeChannelChar (c : Char) : Option Char :=
  if c = '.' || c = ']' then none else if c = '[' then some '_' else some c

/-- A channel name as part of an identifier: points and closing brackets are
    dropped, and an opening bracket becomes an underscore. -/
def normalizeChannel (name : String) : String :=
  String.ofList (name.toList.filterMap normalizeChannelChar)

/-- One piece of the name of a functional unit. Operands are given in their
    short form. -/
inductive NameToken where
  | binary (op : BinOp) (lhs rhs : String) (repeated : Bool)
  | unary (op : UnOp) (arg : String)
  | query (then_ cond else_ : String)
  /-- A function that forwards its argument. -/
  | port
  /-- The token sent before the first result. -/
  | init (value : Nat)
  /-- The width of a function's output. -/
  | width (bits : Nat)
  /-- The position of a function in its cluster. -/
  | member (position : Nat)
  /-- The fingerprint of a body whose name was taken. -/
  | hash (fingerprint : Nat)
  deriving DecidableEq, Repr

namespace NameToken

/-- The spelling of a piece. -/
def text : NameToken → String
  | .binary op lhs rhs repeated =>
    "_" ++ lhs ++ op.mnemonic ++ (if repeated then "d" else "") ++ rhs
  | .unary op arg => "_" ++ op.mnemonic ++ arg
  | .query then_ cond else_ => "_" ++ then_ ++ "q" ++ cond ++ "e" ++ else_
  | .port => "_port"
  | .init value => "_init" ++ toString value
  | .width bits => "_" ++ toString bits
  | .member position => "_p" ++ toString position
  | .hash fingerprint => "_h" ++ Text.hex fingerprint

/-- Does a piece stand for an operation? -/
def isOperation : NameToken → Bool
  | .binary .. | .unary .. | .query .. | .port => true
  | _ => false

end NameToken

/-- The name that pieces spell. -/
def unitName (tokens : List NameToken) : String :=
  "func" ++ String.join (tokens.map NameToken.text)

/-- Does the name say what the unit computes? -/
def hasBody (tokens : List NameToken) : Bool :=
  tokens.any NameToken.isOperation

end DataflowCircuit
