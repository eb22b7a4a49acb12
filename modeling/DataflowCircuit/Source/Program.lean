import DataflowCircuit.Channel
import DataflowCircuit.Element
import DataflowCircuit.Operator

/-!
# Written Programs

A program as it stands in a source file: names are still text, and the two
casts are still apart. Array declarations are already expanded, so `u[2]`
stands as `u[0]` and `u[1]`; an indexed name is just a name from here on.

## Main definitions

* `Source.Expr`: A written expression.
* `Source.Statement`: A written dataflow element.
* `Source.Process`: A written process.
* `Source.Program`: The processes of a file.
-/

namespace DataflowCircuit

namespace Source

/-- A written expression. -/
inductive Expr where
  | const (value : Nat)
  | var (name : String)
  | binary (op : BinOp) (lhs rhs : Expr)
  | unary (op : UnOp) (arg : Expr)
  | query (cond then_ else_ : Expr)
  /-- `int(e, w)`, or `int(e)` without a width. -/
  | intCast (arg : Expr) (width : Option Nat)
  /-- `bool(e)`. -/
  | boolCast (arg : Expr)
  deriving DecidableEq, Repr

/-- A written dataflow statement. -/
abbrev Statement := Element String Expr

/-- A channel of a signature. -/
structure Port where
  name : String
  direction : Direction
  type : ChannelType
  deriving DecidableEq, Repr

/-- A channel declared in a body. -/
structure Declaration where
  name : String
  type : ChannelType
  deriving DecidableEq, Repr

/-- `lhs = rhs;` puts two names on one wire. -/
structure Alias where
  lhs : String
  rhs : String
  deriving DecidableEq, Repr

/-- A written process. -/
structure Process where
  name : String
  ports : List Port
  declarations : List Declaration
  aliases : List Alias
  statements : List Statement
  deriving DecidableEq, Repr

/-- The processes of a file in order. -/
abbrev Program := List Process

end Source

end DataflowCircuit
