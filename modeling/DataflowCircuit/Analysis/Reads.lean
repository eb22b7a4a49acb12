import DataflowCircuit.Process.Basic

/-!
# Channel Reads

Which channels an element reads, in the order in which lowering consumes
them. A function or a cluster becomes one unit with one argument per distinct
channel, so each of its channels is read once; the other elements read one
channel per port.

Counting reads and serving reads both follow this order, and the agreement of
the two is what lets a copy hand out its outputs one after another.

## Main definitions

* `Expr.addReads`: Add the channels of an expression to a list without
  repetition.
* `Element.reads`: The channels an element reads, in order.
-/

namespace DataflowCircuit

/-- Add an identity to a list unless it is there. -/
def addRead (refs : List ChannelId) (id : ChannelId) : List ChannelId :=
  if id ∈ refs then refs else refs ++ [id]

/-- Add the channels of an expression in order of first appearance: operands
    from the left, and a condition before its branches. -/
def Expr.addReads (refs : List ChannelId) : Expr → List ChannelId
  | .const _ => refs
  | .var id => addRead refs id
  | .binary _ lhs rhs => rhs.addReads (lhs.addReads refs)
  | .unary _ arg => arg.addReads refs
  | .query c t e => e.addReads (t.addReads (c.addReads refs))
  | .cast arg _ => arg.addReads refs

/-- The channels that a list of functions reads together. -/
def readsOfFuncs (funcs : List (Func ChannelId Expr)) : List ChannelId :=
  funcs.foldl (fun refs f => f.expr.addReads refs) []

/-- The channels an element reads, in the order in which lowering consumes
    them. -/
def Element.reads : Element ChannelId Expr → List ChannelId
  | .func f => readsOfFuncs [f]
  | .cluster funcs => readsOfFuncs funcs
  | .split guard input _ => [input, guard]
  | .merge guard inputs _ => guard :: inputs
  | .mixer inputs _ => inputs
  | .arbiter inputs _ _ => inputs
  | .sink input => [input]

end DataflowCircuit
