import DataflowCircuit.Source.Program

/-!
# Operator Precedence

The grammar reads an expression without parentheses as a chain: operands with
their leading unary operators, joined by binary operators. How the chain
nests is decided here and nowhere else.

Unary operators bind tightest. Binary operators have a level each; a chain is
cut at its loosest operators, the pieces nest on their own, and the pieces
are joined from the left. Working through the levels from the loosest to the
tightest handles every chain, so the recursion is on the number of levels
left.

## Main definitions

* `applyPrefixes`: An operand under its leading unary operators.
* `cutAt`: A chain cut at the operators of a level.
* `nest`: The expression a chain denotes.

## Theorems

* `nest_nil`: A chain of one operand is that operand.
-/

namespace DataflowCircuit

namespace Source

/-- A binary operator and the operand after it. -/
abbrev Link := BinOp × Expr

/-- An operand under its leading unary operators, the first outermost. -/
def applyPrefixes (ops : List UnOp) (e : Expr) : Expr :=
  ops.foldr Expr.unary e

/-- The links before the first operator of `level`, and then, for each such
    operator, its operand and the links up to the next. -/
def cutAt (level : Nat) : List Link → List Link × List (BinOp × Expr × List Link)
  | [] => ([], [])
  | (op, e) :: links =>
    let (first, pieces) := cutAt level links
    if op.level = level then ([], (op, e, first) :: pieces) else ((op, e) :: first, pieces)

/-- The number of levels of binary operators. -/
def levels : Nat := 8

/-- Nest a chain whose operators all belong to the `left` tightest levels. -/
def nestLevels : Nat → Expr → List Link → Expr
  | 0, e, _ => e
  | left + 1, e, links =>
    let (first, pieces) := cutAt (levels - (left + 1)) links
    pieces.foldl (fun acc (op, e, links) => .binary op acc (nestLevels left e links))
      (nestLevels left e first)

/-- The expression that the operand `e` followed by `links` denotes. -/
def nest (e : Expr) (links : List Link) : Expr :=
  nestLevels levels e links

/-- At every level, a chain of one operand is that operand. -/
theorem nestLevels_nil (n : Nat) (e : Expr) : nestLevels n e [] = e := by
  induction n with
  | zero => rfl
  | succ n ih => simp [nestLevels, cutAt, ih]

/-- A chain of one operand is that operand. -/
theorem nest_nil (e : Expr) : nest e [] = e :=
  nestLevels_nil levels e

end Source

end DataflowCircuit
