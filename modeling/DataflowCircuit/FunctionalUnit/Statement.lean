import DataflowCircuit.Operator

/-!
# Statements of a Functional Unit

A functional unit computes in single assignments: each statement gives one
result a value, and reads arguments, earlier results and constants. A
statement carries the width at which its result is computed.

## Main definitions

* `Operand`: A value that a statement reads.
* `Operand.text`, `Operand.mnemonic`: Its spelling in a statement and in a
  generated name.
* `Operation`: What a statement computes.
* `Statement`: A numbered operation with a width.
-/

namespace DataflowCircuit

/-- A value that a statement reads. -/
inductive Operand where
  /-- The argument in a slot. -/
  | arg (slot : Nat)
  /-- The result of an earlier statement. -/
  | res (index : Nat)
  | const (value : Nat)
  deriving DecidableEq, Repr

namespace Operand

/-- The operand in a statement. -/
def text : Operand → String
  | .arg slot => s!"x{slot}"
  | .res index => s!"res{index}"
  | .const value => toString value

/-- The operand in a generated name. -/
def mnemonic : Operand → String
  | .arg slot => toString slot
  | .res index => s!"r{index}"
  | .const value => s!"c{value}"

/-- Is the operand a constant? -/
def isConst : Operand → Bool
  | .const _ => true
  | _ => false

end Operand

/-- What a statement computes. -/
inductive Operation where
  | binary (op : BinOp) (lhs rhs : Operand)
  | unary (op : UnOp) (arg : Operand)
  | select (cond then_ else_ : Operand)
  /-- Passes an argument on unchanged. -/
  | forward (arg : Operand)
  deriving DecidableEq, Repr

namespace Operation

/-- The right-hand side of a statement. -/
def text : Operation → String
  | .binary op lhs rhs => lhs.text ++ " " ++ op.symbol ++ " " ++ rhs.text
  | .unary op arg => op.symbol ++ arg.text
  | .select cond then_ else_ => cond.text ++ " ? " ++ then_.text ++ " : " ++ else_.text
  | .forward arg => arg.text

/-- Does the operation compare, so that its result is a truth value? -/
def isComparison : Operation → Bool
  | .binary op _ _ => op.isComparison
  | _ => false

/-- Does the operation only pass a value on? -/
def isForward : Operation → Bool
  | .forward _ => true
  | _ => false

end Operation

/-- The result with number `index` is computed at `width` bits. -/
structure Statement where
  index : Nat
  op : Operation
  width : Nat
  deriving DecidableEq, Repr

namespace Statement

/-- The statement as text. -/
def text (st : Statement) : String :=
  s!"res{st.index} := " ++ st.op.text

/-- Is the result a truth value? -/
def isBool (st : Statement) : Bool :=
  st.op.isComparison

end Statement

end DataflowCircuit
