import DataflowCircuit.Expr
import DataflowCircuit.FunctionalUnit.Request
import DataflowCircuit.Naming

/-!
# Building Functional Units

Expressions become statements. All expressions that go through one builder
share its argument slots, its result numbers and its name, which is how the
members of a cluster end up in one unit.

Operands are lowered before the operation that reads them, from the left, and
a condition before its branches. An expression is lowered at a width, which
is the width of the results of its operations; a comparison lowers its
operands at the larger of their natural widths and has a result of one bit, a
condition is lowered at one bit, and a cast changes the width for its
argument and adds no statement.

A builder keeps what was added before an error, so it is the state of a
computation that keeps its state when it fails.

## Main definitions

* `UnitBuilder`: The unit under construction.
* `UnitBuilder.Step`: A computation on a builder.
* `Expr.naturalWidth`: The width an expression has on its own.
* `Expr.lower`: The operand that holds the value of an expression.
* `Expr.lowerOutput`: The result that holds the value of a function body.
-/

namespace DataflowCircuit

/-- A functional unit under construction. -/
structure UnitBuilder where
  /-- The channel of each argument slot. -/
  args : List ChannelId
  argWidths : List Nat
  statements : List Statement
  name : List NameToken
  graph : CostGraph
  deriving Repr

namespace UnitBuilder

/-- A builder to which nothing was added. -/
def empty : UnitBuilder :=
  ⟨[], [], [], [], .empty⟩

/-- A computation that changes a builder and may fail, keeping the changes
    made before. -/
abbrev Step := EStateM Error UnitBuilder

/-- A result or failure without a change. -/
def lift {α : Type} : Except Error α → Step α
  | .ok a => pure a
  | .error e => throw e

/-- Append a piece to the name. -/
def addToken (t : NameToken) (b : UnitBuilder) : UnitBuilder :=
  { b with name := b.name ++ [t] }

/-- Append an argument slot. -/
def addArg (id : ChannelId) (width : Nat) (b : UnitBuilder) : UnitBuilder :=
  { b with args := b.args ++ [id], argWidths := b.argWidths ++ [width] }

/-- Append a statement. -/
def addStatement (op : Operation) (width : Nat) (b : UnitBuilder) : UnitBuilder :=
  { b with
    statements := b.statements ++ [⟨b.statements.length, op, width⟩]
    graph := b.graph.push op }

/-- The operand for a channel, in the slot it has or in a new one. -/
def arg (s : Scope) (id : ChannelId) : Step Operand := do
  let b ← get
  match b.args.idxOf? id with
  | some slot => return .arg slot
  | none =>
    let width ← lift (s.width id)
    set (b.addArg id width)
    return .arg b.args.length

/-- Add a named statement and return the number of its result. -/
def push (t : NameToken) (op : Operation) (width : Nat) : Step Nat := do
  let b ← get
  set ((b.addToken t).addStatement op width)
  return b.statements.length

end UnitBuilder

namespace Expr

open UnitBuilder

/-- The width an expression has on its own, by which the operands of a
    comparison are sized. -/
def naturalWidth (s : Scope) : Expr → Except Error Nat
  | .const v => .ok (bitsFor v)
  | .var id => s.width id
  | .binary op lhs rhs =>
    if op.isComparison then .ok 1
    else do
      let l ← lhs.naturalWidth s
      return max l (← rhs.naturalWidth s)
  | .unary _ arg => arg.naturalWidth s
  | .query _ t e => do
    let t ← t.naturalWidth s
    return max t (← e.naturalWidth s)
  | .cast _ (some w) => .ok w
  | .cast arg none => arg.naturalWidth s

/-- The width at which the operands of a binary operation are lowered that is
    itself lowered at `width`. -/
def operandWidth (s : Scope) (op : BinOp) (lhs rhs : Expr) (width : Nat) : Except Error Nat :=
  if op.isComparison then do
    let l ← lhs.naturalWidth s
    return max l (← rhs.naturalWidth s)
  else .ok width

/-- The width of the result of a binary operation lowered at `width`. -/
def resultWidth (op : BinOp) (width : Nat) : Nat :=
  if op.isComparison then 1 else width

/-- Add the statements of an expression lowered at `width` and return the
    operand that holds its value. Errors name the element `element`. -/
def lower (s : Scope) (element : String) : Expr → Nat → Step Operand
  | .const v, _ => return .const v
  | .var id, _ => arg s id
  | .cast e w, width => e.lower s element (w.getD width)
  | .unary op e, width => do
    let a ← e.lower s element width
    if a.isConst then throw (.malformedElement element .unaryOnConstant)
    return .res (← push (.unary op a.mnemonic) (.unary op a) width)
  | .binary op lhs rhs, width => do
    let w ← lift (operandWidth s op lhs rhs width)
    let l ← lhs.lower s element w
    let r ← rhs.lower s element w
    if l.isConst && r.isConst then throw (.malformedElement element (.binaryOnConstants op))
    return .res (← push (.binary op l.mnemonic r.mnemonic (l = r)) (.binary op l r)
      (resultWidth op width))
  | .query cond then_ else_, width => do
    let c ← cond.lower s element 1
    let t ← then_.lower s element width
    let e ← else_.lower s element width
    if t = e then throw (.malformedElement element .sameBranches)
    if c.isConst && t.isConst && e.isConst then
      throw (.malformedElement element .conditionalOnConstants)
    return .res (← push (.query t.mnemonic c.mnemonic e.mnemonic) (.select c t e) width)

/-- Add the statements of a function body and return the number of the result
    that drives its output. A body that is a bare channel is forwarded. -/
def lowerOutput (s : Scope) (element : String) (e : Expr) (width : Nat) : Step Nat := do
  match ← e.lower s element width with
  | .res index => return index
  | .const _ => throw (.malformedElement element .constantBody)
  | .arg slot => push .port (.forward (.arg slot)) width

end Expr

end DataflowCircuit
