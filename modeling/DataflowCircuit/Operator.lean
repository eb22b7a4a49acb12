/-!
# Operators

The operators of dataflow expressions. Each has three spellings: the symbol
that stands in source text and in generated statements, the mnemonic that
stands in generated names, where symbols are not allowed, and, for unary
operators, a statement symbol that differs from the source symbol because the
target language writes logical negation and complement alike.

## Main definitions

* `BinOp`, `UnOp`: The binary and unary operators.
* `BinOp.isComparison`: Does an operator give a single bit?
* `BinOp.symbol`, `BinOp.mnemonic`: The spellings of a binary operator.
* `UnOp.sourceSymbol`, `UnOp.symbol`, `UnOp.mnemonic`: The spellings of a
  unary operator.
* `BinOp.level`: How tightly a binary operator binds.
-/

namespace DataflowCircuit

/-- Binary operators. The shifts are left, logical right and arithmetic
    right. -/
inductive BinOp where
  | and | or | xor
  | add | minus | mul | div | mod
  | lsl | lsr | asr
  | lt | gt | le | ge | eq | ne
  deriving DecidableEq, Repr

/-- Unary operators: logical not, arithmetic negation and bitwise
    complement. -/
inductive UnOp where
  | not | neg | compl
  deriving DecidableEq, Repr

namespace BinOp

/-- Every binary operator. -/
def all : List BinOp :=
  [.and, .or, .xor, .add, .minus, .mul, .div, .mod, .lsl, .lsr, .asr,
   .lt, .gt, .le, .ge, .eq, .ne]

/-- The operator as written in source text and in statements. -/
def symbol : BinOp → String
  | .and => "&"
  | .or => "|"
  | .xor => "^"
  | .add => "+"
  | .minus => "-"
  | .mul => "*"
  | .div => "/"
  | .mod => "%"
  | .lsl => "<<"
  | .lsr => ">>"
  | .asr => ">>>"
  | .lt => "<"
  | .gt => ">"
  | .le => "<="
  | .ge => ">="
  | .eq => "="
  | .ne => "!="

/-- The operator as it stands in a generated name. -/
def mnemonic : BinOp → String
  | .and => "and"
  | .or => "or"
  | .xor => "xor"
  | .add => "add"
  | .minus => "minus"
  | .mul => "mul"
  | .div => "div"
  | .mod => "mod"
  | .lsl => "lsl"
  | .lsr => "lsr"
  | .asr => "asr"
  | .lt => "lt"
  | .gt => "gt"
  | .le => "le"
  | .ge => "ge"
  | .eq => "eq"
  | .ne => "ne"

/-- Does the operator compare, and so give a single bit? -/
def isComparison : BinOp → Bool
  | .lt | .gt | .le | .ge | .eq | .ne => true
  | _ => false

/-- How tightly the operator binds: a higher level binds tighter. Operators
    of one level associate to the left, and unary operators bind tighter than
    all of them. -/
def level : BinOp → Nat
  | .or => 0
  | .xor => 1
  | .and => 2
  | .eq | .ne => 3
  | .lt | .gt | .le | .ge => 4
  | .lsl | .lsr | .asr => 5
  | .add | .minus => 6
  | .mul | .div | .mod => 7

end BinOp

namespace UnOp

/-- Every unary operator. -/
def all : List UnOp :=
  [.not, .neg, .compl]

/-- The operator as written in source text. -/
def sourceSymbol : UnOp → String
  | .not => "!"
  | .neg => "-"
  | .compl => "~"

/-- The operator as written in statements, where logical not and complement
    share one symbol. -/
def symbol : UnOp → String
  | .not => "~"
  | .neg => "-"
  | .compl => "~"

/-- The operator as it stands in a generated name. -/
def mnemonic : UnOp → String
  | .not => "not"
  | .neg => "neg"
  | .compl => "compl"

end UnOp

end DataflowCircuit
