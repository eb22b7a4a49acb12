import DataflowCircuit.Operator
import DataflowCircuit.Scope

/-!
# Resolved Expressions

An expression whose channel references are identities. There is one cast: it
fixes the width at which its argument is computed, or leaves the width of the
surroundings if it names none.

## Main definitions

* `Expr`: A resolved expression.
* `Expr.map`: Replace every channel reference.
* `Expr.peel`: The expression under any casts.
* `Expr.asConst?`: The value of an expression that is a literal under casts.
-/

namespace DataflowCircuit

/-- A resolved expression. -/
inductive Expr where
  | const (value : Nat)
  | var (id : ChannelId)
  | binary (op : BinOp) (lhs rhs : Expr)
  | unary (op : UnOp) (arg : Expr)
  | query (cond then_ else_ : Expr)
  /-- Computes `arg` at `width`, or at the width of the surroundings. -/
  | cast (arg : Expr) (width : Option Nat)
  deriving DecidableEq, Repr

namespace Expr

/-- Replace every channel reference. -/
def map (f : ChannelId → ChannelId) : Expr → Expr
  | .const v => .const v
  | .var id => .var (f id)
  | .binary op lhs rhs => .binary op (lhs.map f) (rhs.map f)
  | .unary op arg => .unary op (arg.map f)
  | .query c t e => .query (c.map f) (t.map f) (e.map f)
  | .cast arg width => .cast (arg.map f) width

/-- The expression under any number of casts. -/
def peel : Expr → Expr
  | .cast arg _ => arg.peel
  | e => e

/-- The value of a literal, possibly under casts. -/
def asConst? (e : Expr) : Option Nat :=
  match e.peel with
  | .const v => some v
  | _ => none

end Expr

end DataflowCircuit
