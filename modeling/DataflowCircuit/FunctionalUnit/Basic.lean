import DataflowCircuit.Cost.Basic
import DataflowCircuit.FunctionalUnit.Statement

/-!
# Functional Units

A functional unit takes one token from each of its arguments, runs its
statements, and sends one result on each of its outputs. An output may send
an initial token before its first result, and may go through a buffer, which
is an instance of its own.

The template of a unit is independent of widths: these are parameters, in the
order arguments, outputs, results, and the instance key lists their values.

## Main definitions

* `UnitOutput`: An output of a unit.
* `BufferedOutput`: The buffer behind an output.
* `FunctionalUnit`: A unit.
* `FunctionalUnit.params`, `FunctionalUnit.key`: The widths of an instance
  and its key.
* `FunctionalUnit.isForward`: Does a unit compute nothing?
* `FunctionalUnit.body`: The part of a unit its template depends on, as text.
-/

namespace DataflowCircuit

/-- An output of a functional unit. -/
structure UnitOutput where
  /-- The number of the result that is sent. -/
  result : Nat
  width : Nat
  /-- A token that is sent once before the first result. -/
  init : Option Nat
  deriving DecidableEq, Repr

/-- The buffer behind an output of a functional unit. -/
structure BufferedOutput where
  /-- The position of the output. -/
  output : Nat
  width : Nat
  depth : Nat
  init : Option Nat
  cost : Cost
  deriving DecidableEq, Repr

/-- The instance key of a buffer. -/
def bufferKey (depth width : Nat) : String :=
  s!"buffer<{depth},{width}>"

/-- The instance key of the buffer behind an output. -/
def BufferedOutput.key (b : BufferedOutput) : String :=
  bufferKey b.depth b.width

/-- A functional unit. -/
structure FunctionalUnit where
  name : String
  argWidths : List Nat
  statements : List Statement
  outputs : List UnitOutput
  buffers : List BufferedOutput
  deriving DecidableEq, Repr

namespace FunctionalUnit

/-- The widths of arguments, outputs and results, in this order. -/
def params (fu : FunctionalUnit) : List Nat :=
  fu.argWidths ++ fu.outputs.map UnitOutput.width ++ fu.statements.map Statement.width

/-- The template name with its parameters. -/
def key (fu : FunctionalUnit) : String :=
  fu.name ++ "<" ++ String.intercalate "," (fu.params.map toString) ++ ">"

/-- Does the unit only pass arguments on? -/
def isForward (fu : FunctionalUnit) : Bool :=
  fu.statements.all (·.op.isForward)

/-- The text of an output at a position. -/
def outputText (position : Nat) (o : UnitOutput) : String :=
  match o.init with
  | some v => s!"out{position}!{v}:res{o.result}"
  | none => s!"out{position}!res{o.result}"

/-- The text that tells the bodies of two units apart: the number of arguments,
    the statements and the outputs, without widths. -/
def body (fu : FunctionalUnit) : String :=
  toString fu.argWidths.length ++ "|" ++
    String.intercalate ";" (fu.statements.map Statement.text) ++ "|" ++
    String.intercalate "," (fu.outputs.zipIdx.map fun (o, i) => outputText i o)

end FunctionalUnit

end DataflowCircuit
