import DataflowCircuit.Error
import DataflowCircuit.Source.Declaration
import DataflowCircuit.Source.Lexical
import DataflowCircuit.Source.Parser
import DataflowCircuit.Source.Precedence
import DataflowCircuit.Source.Rule

/-!
# Grammar of the Source Language

Every rule of the language as a parser, from numbers up to a whole file, and
the entry point `parse`.

A text can match the grammar and still not be a program: a number can be too
large, an array empty, a statement can have the wrong number of outputs. Such
a defect is only reported if the whole file matches the grammar, so a rule
does not fail on it. Its value is then a `Flaw` instead of a tree, and the
values of a rule's parts are joined in the order in which their flaws are
reported. That is the order of the text, except that the flaws of a process
body come after those of its dataflow block.

Expressions contain expressions only after at least one more character, so
the length of the text bounds their nesting and is the fuel of the only
recursive rule.

## Main definitions

* `FlawKind`, `Flaw`: A defect of a text that matches the grammar.
* `Checked`: A tree or the first flaw in it.
* `expr`: The rule of expressions.
* `funcStmt`, `selectStmt`, `cluster`: The rules of statements.
* `process`, `file`: The rules of processes and files.
* `parse`: The program a text denotes.
-/

namespace DataflowCircuit

namespace Source

open DataflowCircuit.Source.Parser

/-- The ways in which a text that matches the grammar can be no program. -/
inductive FlawKind where
  | bitwidth
  | hexadecimal
  | binary
  | decimal
  | emptyArray
  | unconnected
  | mergeOutputs
  | mixerOutputs
  | arbiterOutputs
  | clusteredSink
  deriving DecidableEq, Repr

/-- The text of a flaw. -/
def FlawKind.message : FlawKind → String
  | .bitwidth => "Expected valid bitwidth"
  | .hexadecimal => "Expected hexadecimal number"
  | .binary => "Expected binary number"
  | .decimal => "Expected decimal number"
  | .emptyArray => "Array length must be positive"
  | .unconnected => "Expected a channel, found `*'"
  | .mergeOutputs => "A merge drives exactly one output"
  | .mixerOutputs => "A mixer drives exactly one output"
  | .arbiterOutputs => "An arbiter drives one output and one control channel"
  | .clusteredSink => "Sinks cannot appear in a dataflow_cluster"

/-- A flaw and the number of characters left where the flawed part starts. -/
structure Flaw where
  kind : FlawKind
  left : Nat
  deriving DecidableEq, Repr

/-- A tree, or the first flaw in it. -/
abbrev Checked := Except Flaw

/-- A parser over the rules of the language. -/
abbrev Reader := Parser Rule

/-- Skip blanks and comments. -/
def gap : Reader Unit :=
  lexeme fun cs => some ((), skip cs)

/-- A rule that reads one fixed text. -/
def mark {α : Type} (r : Rule) (s : String) (a : α) : Reader α :=
  rule r do
    literal s
    return a

/-- A rule that reads a word of the language. -/
def word (r : Rule) (read : List Char → Option (List Char × List Char)) : Reader String :=
  rule r (lexeme fun cs => (read cs).map fun (w, rest) => (String.ofList w, rest))

/-- Repeat with blanks and comments between two rounds. -/
def repeated {α : Type} (p : Reader α) : Reader (List α) :=
  many skip p

/-- One or more `p` with `sep` between them. -/
def separated {α : Type} (sep : String) (p : Reader α) : Reader (List α) := do
  let first ← p
  gap
  let others ← repeated do
    literal sep
    gap
    p
  return first :: others

/-- All trees of a list, or the first flaw. -/
def joined {α : Type} (parts : List (Checked α)) : Checked (List α) :=
  traverseList id parts

-- Numbers and names.

/-- A number below `2 ^ 64`, or a flaw where its text starts. -/
def checkWord64 (kind : FlawKind) (base : Nat) (start digits : List Char) : Checked Nat :=
  let n := Text.ofDigits base digits
  if n < UInt64.size then .ok n else .error ⟨kind, start.length⟩

/-- The rule of a number: `introducer`, then digits of `base`. -/
def number (r : Rule) (kind : FlawKind) (introducer : String) (base : Nat)
    (isDigit : Char → Bool) : Reader (Checked Nat) :=
  rule r (lexeme fun cs => do
    let digits ← introducer.toList.isPrefixOf? cs
    let (ds, rest) ← run? isDigit digits
    return (checkWord64 kind base cs ds, rest))

/-- A width, a length or a depth: decimal digits. -/
def bitwidth : Reader (Checked Nat) :=
  number .bitwidth .bitwidth "" 10 Char.isDigit

/-- A number: hexadecimal after `0x`, binary after `0b`, else decimal. -/
def numLit : Reader (Checked Nat) :=
  rule .numLit (choice
    [number .hex .hexadecimal "0x" 16 Text.isHexDigit,
     number .binary .binary "0b" 2 Text.isBinDigit,
     number .decimal .decimal "" 10 Char.isDigit])

/-- The name of a process. -/
def identifier : Reader String := word .identifier identifier?

/-- A channel name as it is declared. -/
def chanPath : Reader String := word .chanPath path?

/-- A channel name as it is used. -/
def chanRef : Reader String := word .chanRef reference?

-- Types and declarations.

/-- `int < width >`. -/
def intType : Reader (Checked ChannelType) :=
  rule .intType do
    literal "int"
    gap
    literal "<"
    gap
    let width ← bitwidth
    gap
    literal ">"
    return width.map ChannelType.int

/-- `bool`. -/
def boolType : Reader (Checked ChannelType) :=
  mark .boolType "bool" (.ok .bool)

/-- A type in parentheses. -/
def chanType : Reader (Checked ChannelType) :=
  rule .chanType do
    literal "("
    gap
    let type ← intType.orElse boolType
    gap
    literal ")"
    return type

/-- A length in brackets, without blanks. -/
def arrayLen : Reader (Checked Nat) :=
  rule .arrayLen do
    literal "["
    let length ← bitwidth
    literal "]"
    return length

/-- A declared name with an optional length directly after it. A length of
    zero is a flaw where the name starts. -/
def declName : Reader (Checked DeclaredName) :=
  rule .declName do
    let start ← rest
    let path ← chanPath
    let length ← optional arrayLen
    return do
      let length ← traverseOption id length
      if length = some 0 then throw ⟨.emptyArray, start.length⟩
      return { path, length }

/-- Declared names between commas. -/
def declList : Reader (Checked (List DeclaredName)) :=
  rule .declList do
    return joined (← separated "," declName)

/-- `?` for an input and `!` for an output. -/
def portDir : Reader Direction :=
  rule .portDir (choice
    [do literal "?"; return .input,
     do literal "!"; return .output])

/-- `chan`, a direction, a type and names: a group of ports. -/
def portGroup : Reader (Checked PortGroup) :=
  rule .portGroup do
    literal "chan"
    gap
    let direction ← portDir
    gap
    let type ← chanType
    gap
    let names ← declList
    return do
      let type ← type
      return { direction, type, names := ← names }

/-- Groups of ports between semicolons, of which the last may be followed by
    one too. There may be no group at all. -/
def portList : Reader (Checked (List PortGroup)) :=
  rule .portList do
    let groups ← optional do
      let groups ← separated ";" portGroup
      gap
      let _ ← optional (literal ";")
      return groups
    return joined (groups.getD [])

/-- `chan`, a type, names and a semicolon. -/
def chanDecl : Reader (Checked BodyItem) :=
  rule .chanDecl do
    literal "chan"
    gap
    let type ← chanType
    gap
    let names ← declList
    gap
    literal ";"
    return do
      let type ← type
      return .declarations type (← names)

/-- `lhs = rhs ;`. -/
def aliasDecl : Reader Alias :=
  rule .aliasDecl do
    let lhs ← chanRef
    gap
    literal "="
    gap
    let rhs ← chanRef
    gap
    literal ";"
    return { lhs, rhs }

/-- A declaration or an alias. -/
def bodyItem : Reader (Checked BodyItem) :=
  rule .bodyItem (choice
    [chanDecl,
     do return .ok (.alias (← aliasDecl))])

-- Expressions.

/-- The binary operators in the order in which they are tried: an operator
    before every other that it starts with. -/
def binOps : List (Rule × BinOp) :=
  [(.opAshr, .asr), (.opShr, .lsr), (.opShl, .lsl), (.opLe, .le), (.opGe, .ge),
   (.opNe, .ne), (.opLt, .lt), (.opGt, .gt), (.opEq, .eq), (.opOr, .or),
   (.opAnd, .and), (.opXor, .xor), (.opAdd, .add), (.opSub, .minus),
   (.opMul, .mul), (.opDiv, .div), (.opMod, .mod)]

/-- The unary operators in the order in which they are tried. -/
def unOps : List (Rule × UnOp) :=
  [(.opNeg, .neg), (.opCompl, .compl), (.opNot, .not)]

/-- A binary operator. -/
def binOp : Reader BinOp :=
  choice (binOps.map fun (r, op) => mark r op.symbol op)

/-- A unary operator. -/
def unOp : Reader UnOp :=
  choice (unOps.map fun (r, op) => mark r op.sourceSymbol op)

/-- `int ( expr )`, or `int ( expr , width )`. -/
def castInt (expr : Reader (Checked Expr)) : Reader (Checked Expr) :=
  rule .castInt do
    literal "int"
    gap
    literal "("
    gap
    let arg ← expr
    gap
    let width ← optional do
      literal ","
      gap
      bitwidth
    gap
    literal ")"
    return do
      let arg ← arg
      return .intCast arg (← traverseOption id width)

/-- `bool ( expr )`. -/
def castBool (expr : Reader (Checked Expr)) : Reader (Checked Expr) :=
  rule .castBool do
    literal "bool"
    gap
    literal "("
    gap
    let arg ← expr
    gap
    literal ")"
    return arg.map Expr.boolCast

/-- `( expr )`. -/
def parenthesized (expr : Reader (Checked Expr)) : Reader (Checked Expr) := do
  literal "("
  gap
  let e ← expr
  gap
  literal ")"
  return e

/-- An operand without unary operators. A cast is tried before a channel, so
    `int(a)` is a cast even if there is a channel called `int`. -/
def primary (expr : Reader (Checked Expr)) : Reader (Checked Expr) :=
  choice
    [castInt expr,
     castBool expr,
     do return (← numLit).map Expr.const,
     do return .ok (.var (← chanRef)),
     parenthesized expr]

/-- An operand with its leading unary operators. -/
def operand (expr : Reader (Checked Expr)) : Reader (Checked Expr) := do
  let ops ← repeated unOp
  gap
  let e ← primary expr
  return e.map (applyPrefixes ops)

/-- A binary operator and the operand after it. -/
def link (expr : Reader (Checked Expr)) : Reader (Checked Link) := do
  let op ← binOp
  gap
  let e ← operand expr
  return e.map (op, ·)

/-- A chain of operands and binary operators. -/
def condExpr (expr : Reader (Checked Expr)) : Reader (Checked Expr) :=
  rule .condExpr do
    let first ← operand expr
    gap
    let links ← repeated (link expr)
    return do
      let first ← first
      return nest first (← joined links)

/-- The two branches of a conditional. -/
def branches (expr : Reader (Checked Expr)) : Reader (Checked (Expr × Expr)) := do
  literal "?"
  gap
  let then_ ← expr
  gap
  literal ":"
  gap
  let else_ ← expr
  return do
    let then_ ← then_
    return (then_, ← else_)

/-- The rule of expressions nested at most `fuel` deep. -/
def expr : Nat → Reader (Checked Expr)
  | 0 => fail
  | fuel + 1 => rule .expr (delay fun _ => do
    let cond ← condExpr (expr fuel)
    gap
    let bs ← optional (branches (expr fuel))
    return do
      let cond ← cond
      match ← traverseOption id bs with
      | none => return cond
      | some (then_, else_) => return .query cond then_ else_)

-- Dataflow statements.

/-- A reference to a channel, or `none` for an unconnected target. -/
def target : Reader (Option String) :=
  rule .target (choice
    [mark .unconnected "*" none,
     do return some (← chanRef)])

/-- Targets between commas. -/
def targetList : Reader (List (Option String)) :=
  rule .targetList (separated "," target)

/-- `[ depth ]`, or `[ depth , expr ]` with an initial token. -/
def bufferSpec (fuel : Nat) : Reader (Checked (Buffer Expr)) :=
  rule .bufferSpec do
    literal "["
    gap
    let depth ← bitwidth
    gap
    let init ← optional do
      literal ","
      gap
      expr fuel
    gap
    literal "]"
    return do
      let depth ← depth
      return { depth, init := ← traverseOption id init }

/-- A function, or a sink if the function is a bare channel without a buffer
    that goes nowhere. -/
def toStatement (f : Func String Expr) : Statement :=
  match f with
  | ⟨.var name, none, none⟩ => .sink name
  | f => .func f

/-- `expr -> target ;` with an optional buffer after the arrow. -/
def funcStmt (fuel : Nat) : Reader (Checked Statement) :=
  rule .funcStmt do
    let e ← expr fuel
    gap
    literal "->"
    gap
    let buffer ← optional (bufferSpec fuel)
    gap
    let output ← target
    gap
    literal ";"
    return do
      let expr ← e
      let buffer ← traverseOption id buffer
      return toStatement { expr, buffer, output }

/-- What stands in the braces of a selection. -/
inductive Guard where
  | mixer
  | arbiter
  | channel (name : String)

/-- `*` for a mixer, `|` for an arbiter, else a channel. -/
def guardSpec : Reader Guard :=
  rule .guardSpec (choice
    [mark .mixerMark "*" .mixer,
     mark .arbiterMark "|" .arbiter,
     do return .channel (← chanRef)])

/-- The channels of a list of targets, all of which must be connected. -/
def connected (left : Nat) (targets : List (Option String)) : Checked (List String) :=
  traverseList (fun t => t.elim (.error ⟨.unconnected, left⟩) .ok) targets

/-- The statement that a guard with inputs and outputs stands for, where
    `left` characters are left at its start. Inputs are checked before
    outputs. -/
def selection (left : Nat) (guard : Guard) (inputs outputs : List (Option String)) :
    Checked Statement := do
  let inputs ← connected left inputs
  match guard, inputs, outputs with
  | .channel guard, [input], _ :: _ :: _ => return .split guard input outputs
  | .channel guard, inputs, outputs =>
    match ← connected left outputs with
    | [output] => return .merge guard inputs output
    | _ => throw ⟨.mergeOutputs, left⟩
  | .mixer, inputs, outputs =>
    match ← connected left outputs with
    | [output] => return .mixer inputs output
    | _ => throw ⟨.mixerOutputs, left⟩
  | .arbiter, inputs, outputs =>
    match ← connected left outputs with
    | [output, ctrl] => return .arbiter inputs output ctrl
    | _ => throw ⟨.arbiterOutputs, left⟩

/-- A guard in braces, inputs, an arrow, outputs and a semicolon. -/
def selectStmt : Reader (Checked Statement) :=
  rule .selectStmt do
    let start ← rest
    literal "\x7b"
    gap
    let guard ← guardSpec
    gap
    literal "\x7d"
    gap
    let inputs ← targetList
    gap
    literal "->"
    gap
    let outputs ← targetList
    gap
    literal ";"
    return selection start.length guard inputs outputs

/-- The functions of a cluster that has no sinks. -/
def members (left : Nat) (statements : List Statement) : Checked (List (Func String Expr)) :=
  traverseList
    (fun
      | .func f => .ok f
      | _ => .error ⟨.clusteredSink, left⟩)
    statements

/-- `dataflow_cluster` and functions in braces. -/
def cluster (fuel : Nat) : Reader (Checked Statement) :=
  rule .cluster do
    let start ← rest
    literal "dataflow_cluster"
    gap
    literal "\x7b"
    gap
    let statements ← repeated (funcStmt fuel)
    gap
    literal "\x7d"
    return do
      let statements ← joined statements
      return .cluster (← members start.length statements)

/-- A statement of a dataflow block. -/
def dflowStmt (fuel : Nat) : Reader (Checked Statement) :=
  rule .dflowStmt (choice [cluster fuel, selectStmt, funcStmt fuel])

/-- `dataflow` and statements in braces. -/
def dataflow (fuel : Nat) : Reader (Checked (List Statement)) :=
  rule .dataflow do
    literal "dataflow"
    gap
    literal "\x7b"
    gap
    let statements ← repeated (dflowStmt fuel)
    gap
    literal "\x7d"
    return joined statements

-- Processes and files.

/-- `defproc`, a name, ports in parentheses, and a body in braces that ends
    with its dataflow block. -/
def process (fuel : Nat) : Reader (Checked CompactProcess) :=
  rule .process do
    literal "defproc"
    gap
    let name ← identifier
    gap
    literal "("
    gap
    let ports ← portList
    gap
    literal ")"
    gap
    literal "\x7b"
    gap
    let items ← repeated bodyItem
    gap
    let statements ← dataflow fuel
    gap
    literal "\x7d"
    return do
      let ports ← ports
      let statements ← statements
      return { name, ports, items := ← joined items, statements }

/-- The end of the text. -/
def endOfInput : Reader Unit :=
  rule .endOfInput (lexeme fun cs => if cs.isEmpty then some ((), []) else none)

/-- Processes up to the end of the text. -/
def file (fuel : Nat) : Reader (Checked (List CompactProcess)) :=
  rule .file do
    gap
    let processes ← repeated (process fuel)
    gap
    endOfInput
    return joined processes

/-- The line and column of the place with `left` characters left, both from
    one. Only a line feed starts a new line. -/
def locate (cs : List Char) (left : Nat) : Nat × Nat :=
  let before := cs.take (cs.length - left)
  (1 + before.count '\n', 1 + (before.reverse.takeWhile (· ≠ '\n')).length)

/-- The program that a text denotes. -/
def parse (text : String) : Except Error Program :=
  let cs := text.toList
  let fuel := cs.length + 1
  match (file fuel).run cs with
  | some (.ok processes, _) => .ok (processes.map CompactProcess.expand)
  | some (.error flaw, _) =>
    let (line, column) := locate cs flaw.left
    .error (.notAProgram line column flaw.kind.message)
  | none =>
    let trail := (file fuel).trace cs ⟨cs.length, []⟩
    let (line, column) := locate cs trail.left
    .error (.notAProgram line column (expectation trail.rules))

end Source

end DataflowCircuit
