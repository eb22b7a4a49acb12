import DataflowCircuit.FunctionalUnit.Basic

/-!
# Estimate Requests

What an estimator is told about a functional unit: its inputs, the results
that stay inside, and what drives each output. Every value is written out as
a tree over the inputs, so an estimator needs no notion of statements.

## Main definitions

* `CostNode`: A value of a unit as a tree over its inputs.
* `CostGraph`: The trees of the results of a unit.
* `Signal`, `Assignment`: A named input and a named value.
* `EstimateRequest`: All of it.
* `CostGraph.request`: The request for a unit.
-/

namespace DataflowCircuit

/-- A value of a functional unit as a tree over its inputs. Operators are
    given by their source symbols. -/
inductive CostNode where
  | input (name : String)
  | const (value : Nat)
  | binary (op : String) (lhs rhs : CostNode)
  | unary (op : String) (arg : CostNode)
  | select (cond then_ else_ : CostNode)
  deriving DecidableEq, Repr

/-- An input of a unit. -/
structure Signal where
  name : String
  width : Nat
  deriving DecidableEq, Repr

/-- A value that a unit computes. -/
structure Assignment where
  name : String
  width : Nat
  expr : CostNode
  deriving DecidableEq, Repr

/-- What an estimator is told about a unit. -/
structure EstimateRequest where
  name : String
  inputs : List Signal
  /-- The results that drive no output. -/
  hidden : List Assignment
  outputs : List Assignment
  deriving DecidableEq, Repr

namespace EstimateRequest

/-- The sum of the input widths. -/
def totalWidth (r : EstimateRequest) : Nat :=
  r.inputs.foldl (fun total input => total + input.width) 0

/-- The number of inputs at or above the width from which ports cost more. -/
def wide (r : EstimateRequest) : Nat :=
  (r.inputs.filter (32 ≤ ·.width)).length

/-- The number of the other inputs. -/
def narrow (r : EstimateRequest) : Nat :=
  r.inputs.length - r.wide

end EstimateRequest

/-- The trees of the results of a unit, in order. -/
structure CostGraph where
  nodes : List CostNode
  deriving DecidableEq, Repr

namespace CostGraph

/-- A graph without results. -/
def empty : CostGraph :=
  ⟨[]⟩

/-- The tree of an operand. A result that was never computed stands for
    zero; no statement reads one. -/
def node (g : CostGraph) : Operand → CostNode
  | .arg slot => .input s!"x{slot}"
  | .res index => g.nodes[index]?.getD (.const 0)
  | .const value => .const value

/-- The tree of an operation. -/
def nodeOf (g : CostGraph) : Operation → CostNode
  | .binary op lhs rhs => .binary op.symbol (g.node lhs) (g.node rhs)
  | .unary op arg => .unary op.sourceSymbol (g.node arg)
  | .select c t e => .select (g.node c) (g.node t) (g.node e)
  | .forward arg => g.node arg

/-- Add the result of an operation. -/
def push (g : CostGraph) (op : Operation) : CostGraph :=
  ⟨g.nodes ++ [g.nodeOf op]⟩

/-- The request for a unit whose results have the trees of `g`. -/
def request (g : CostGraph) (fu : FunctionalUnit) : EstimateRequest where
  name := fu.name
  inputs := fu.argWidths.zipIdx.map fun (width, i) => ⟨s!"x{i}", width⟩
  hidden := (fu.statements.filter fun st => fu.outputs.all (·.result ≠ st.index)).map fun st =>
    ⟨s!"res{st.index}", st.width, g.node (.res st.index)⟩
  outputs := fu.outputs.zipIdx.map fun (o, i) => ⟨s!"out{i}", o.width, g.node (.res o.result)⟩

end CostGraph

end DataflowCircuit
