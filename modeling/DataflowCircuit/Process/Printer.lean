import DataflowCircuit.Process.Arrays
import DataflowCircuit.Process.Basic

/-!
# Printing Processes

Processes written back as source text. The text can be read again. An operand
is put in parentheses if it is a binary operation or a conditional, whatever
the operator around it, so no printed text depends on precedence.

Diagnostics name an element by its printed form, which is a single line
without the final semicolon.

## Main definitions

* `Expr.print`: An expression.
* `Func.print`, `Element.print`: A function and an element, without the final
  semicolon.
* `Process.print`: A process.
* `printProgram`: A program.
-/

namespace DataflowCircuit

namespace Expr

/-- Does an expression need parentheses as an operand? -/
def isCompound : Expr → Bool
  | .binary .. | .query .. => true
  | _ => false

/-- A text in parentheses if `b` holds. -/
def parens (b : Bool) (s : String) : String :=
  if b then "(" ++ s ++ ")" else s

/-- An expression as source text. -/
def print (s : Scope) : Expr → String
  | .const v => toString v
  | .var id => s.nameOf id
  | .binary op lhs rhs =>
    parens lhs.isCompound (lhs.print s) ++ " " ++ op.symbol ++ " " ++
      parens rhs.isCompound (rhs.print s)
  | .unary op arg => op.sourceSymbol ++ parens arg.isCompound (arg.print s)
  | .query c t e =>
    parens c.isCompound (c.print s) ++ " ? " ++ parens t.isCompound (t.print s) ++ " : " ++
      parens e.isCompound (e.print s)
  | .cast arg (some w) => "int(" ++ arg.print s ++ ", " ++ toString w ++ ")"
  | .cast arg none => "int(" ++ arg.print s ++ ")"

end Expr

/-- A buffer annotation as source text, with the blank after it. -/
def Buffer.print (s : Scope) (b : Buffer Expr) : String :=
  match b.init with
  | none => "[" ++ toString b.depth ++ "] "
  | some init => "[" ++ toString b.depth ++ ", " ++ init.print s ++ "] "

/-- A target as source text. -/
def printTarget (s : Scope) : Option ChannelId → String
  | none => "*"
  | some id => s.nameOf id

/-- A function as source text, without the final semicolon. -/
def Func.print (s : Scope) (f : Func ChannelId Expr) : String :=
  f.expr.print s ++ " -> " ++ (f.buffer.elim "" (Buffer.print s)) ++ printTarget s f.output

/-- A list of channels as source text. -/
def printChannels (s : Scope) (ids : List ChannelId) : String :=
  String.intercalate ", " (ids.map s.nameOf)

namespace Element

/-- An element as source text on one line, without the final semicolon. -/
def print (s : Scope) : Element ChannelId Expr → String
  | .func f => f.print s
  | .split guard input outputs =>
    "\x7b" ++ s.nameOf guard ++ "\x7d " ++ s.nameOf input ++ " -> " ++
      String.intercalate ", " (outputs.map (printTarget s))
  | .merge guard inputs output =>
    "\x7b" ++ s.nameOf guard ++ "\x7d " ++ printChannels s inputs ++ " -> " ++ s.nameOf output
  | .mixer inputs output =>
    "\x7b*\x7d " ++ printChannels s inputs ++ " -> " ++ s.nameOf output
  | .arbiter inputs output ctrl =>
    "\x7b|\x7d " ++ printChannels s inputs ++ " -> " ++ s.nameOf output ++ ", " ++ s.nameOf ctrl
  | .sink input => s.nameOf input ++ " -> *"
  | .cluster funcs =>
    "dataflow_cluster \x7b " ++
      String.intercalate " " (funcs.map fun f => f.print s ++ ";") ++ " \x7d"

/-- What ends an element of a dataflow block: a cluster ends by itself. -/
def terminator : Element ChannelId Expr → String
  | .cluster _ => ""
  | _ => ";"

end Element

namespace Process

/-- Array declarations for a list of channels, each with its first channel. -/
def grouped (s : Scope) (ids : List ChannelId) : List (String × Channel) :=
  (groupArrays (ids.map s.nameOf)).filterMap fun (name, position) => do
    let c ← s.channel? (← ids[position]?)
    return (name, c)

/-- The mark of a channel in a signature. -/
def directionSymbol : ChannelKind → String
  | .port d => d.symbol
  | _ => "?"

/-- The signature of a process, without its name. -/
def printPorts (p : Process) : String :=
  String.intercalate "; " ((grouped p.scope p.ports).map fun (name, c) =>
    "chan" ++ directionSymbol c.kind ++ "(" ++ c.type.text ++ ") " ++ name)

/-- The names that are not roots, each with the name of its root. -/
def aliasPairs (p : Process) : List (String × String) :=
  (p.scope.ids.filter (!p.scope.isCanonical ·)).map fun id =>
    (p.scope.nameOf id, p.scope.nameOf (p.scope.canonical id))

/-- A process as source text, without a final line feed. -/
def print (p : Process) : String :=
  "defproc " ++ p.name ++ "(" ++ p.printPorts ++ ") \x7b\n" ++
    String.join ((grouped p.scope p.locals).map fun (name, c) =>
      "  chan(" ++ c.type.text ++ ") " ++ name ++ ";\n") ++
    String.join (p.aliasPairs.map fun (name, root) => "  " ++ name ++ " = " ++ root ++ ";\n") ++
    "  dataflow \x7b\n" ++
    String.join (p.elements.map fun el => "    " ++ el.print p.scope ++ el.terminator ++ "\n") ++
    "  \x7d\n\x7d"

end Process

/-- A program as source text. -/
def printProgram (program : Program) : String :=
  String.join (program.map fun p => p.print ++ "\n")

end DataflowCircuit
