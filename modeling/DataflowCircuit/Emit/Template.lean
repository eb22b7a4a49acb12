import DataflowCircuit.Lowering.Netlist

/-!
# Template Text

The bodies of templates in the target language. A template has width
parameters, a list of ports with directions, and a program that runs forever.

## Main definitions

* `lines`: A text from its lines.
* `FunctionalUnit.render`: The template of a functional unit.
* `FunctionalUnit.parametersFit`: Are its parameters numbered below `2 ^ 64`?
* `Template.render`: The template of anything.
* `Template.render?`: The same for templates from elsewhere.
-/

namespace DataflowCircuit

namespace Emit

/-- A text from its lines, each ended by a line feed. -/
def lines (ls : List String) : String :=
  String.join (ls.map (· ++ "\n"))

/-- A list numbered from zero, joined by a separator. -/
def enumerate (n : Nat) (sep : String) (f : Nat → String) : String :=
  String.intercalate sep ((List.range n).map f)

end Emit

open Emit

namespace FunctionalUnit

/-- A result as it is sent on a channel of numbers. -/
def resultRef (fu : FunctionalUnit) (index : Nat) : String :=
  match fu.statements[index]? with
  | some st => if st.isBool then s!"int(res{index})" else s!"res{index}"
  | none => s!"res{index}"

/-- The ports of a unit: arguments, then outputs, with their width
    parameters. -/
def portList (fu : FunctionalUnit) : String :=
  let n := fu.argWidths.length
  String.intercalate "; "
    ((List.range n).map (fun i => s!"chan?(int<W{i}>)arg{i}") ++
      (List.range fu.outputs.length).map fun j => s!"chan!(int<W{n + j}>) out{j}")

/-- The number of the width parameter of a result: the parameters of the
    arguments and the outputs come first. -/
def resultParameter (fu : FunctionalUnit) (st : Statement) : Nat :=
  fu.argWidths.length + fu.outputs.length + st.index

/-- The declaration of the variable of a result. -/
def resultDecl (fu : FunctionalUnit) (st : Statement) : String :=
  if st.isBool then s!"  bool res{st.index};"
  else s!"  int<W{fu.resultParameter st}> res{st.index};"

/-- Are the width parameters of all results numbered below `2 ^ 64`? Results
    that are truth values have none. -/
def parametersFit (fu : FunctionalUnit) : Bool :=
  fu.statements.all fun st => st.isBool || fu.resultParameter st < UInt64.size

/-- The statement that sends an initial token, if an output has one. -/
def initialSend? (o : UnitOutput) (j : Nat) : Option String :=
  o.init.map fun v => s!"    out{j}!{v};"

/-- The template of a functional unit. -/
def render (fu : FunctionalUnit) : String :=
  let n := fu.argWidths.length
  let outs := fu.outputs.zipIdx
  lines (
    ["template<pint " ++ enumerate fu.params.length ", " (fun i => s!"W{i}") ++ ">",
     "export defproc " ++ fu.name ++ "(" ++ fu.portList ++ ")",
     "\x7b"] ++
    (List.range n).map (fun i => s!"  int<W{i}> x{i};") ++
    fu.statements.map fu.resultDecl ++
    ["  chp \x7b"] ++
    outs.filterMap (fun (o, j) => initialSend? o j) ++
    ["    *[",
     "      " ++ enumerate n ", " (fun i => s!"arg{i}?x{i}") ++ ";",
     "      log(\"receive (\", " ++ enumerate n ", \", \", " (fun i => s!"x{i}") ++ ", \")\");"] ++
    fu.statements.map (fun st => "      " ++ st.text ++ ";") ++
    ["      " ++ String.intercalate ", "
       (outs.map fun (o, j) => s!"out{j}!" ++ fu.resultRef o.result) ++ ";",
     "      log(\"send (\", " ++ String.intercalate ", \", \", "
       (fu.outputs.map fun o => s!"res{o.result}") ++ ", \")\")",
     "    ]",
     "  \x7d",
     "\x7d"])

end FunctionalUnit

namespace Template

/-- The template of copies. -/
def renderCopy (name : String) : String :=
  lines [
    "template<pint W, N>",
    "export defproc " ++ name ++ "(chan?(int<W>) in; chan!(int<W>) out[N])",
    "\x7b",
    "  int<W> x;",
    "  chp \x7b",
    "    *[ in?x; log(\"receive \", x); (,i:N: out[i]!x; log(\"send \", i, \": \", x) )]",
    "  \x7d",
    "\x7d"]

/-- The template of sinks. -/
def renderSink (name : String) : String :=
  lines [
    "template<pint W>",
    "export defproc " ++ name ++ "(chan?(int<W>) in)",
    "\x7b",
    "  int<W> t;",
    "  chp \x7b",
    "    *[in?t; log (\"got \", t)]",
    "  \x7d",
    "\x7d"]

/-- The template of sources. -/
def renderSource (name : String) : String :=
  lines [
    "template<pint V, W>",
    "export defproc " ++ name ++ "(chan!(int<W>)x)",
    "\x7b",
    "  chp \x7b",
    "    *[log(\"send \", V); x!V]",
    "  \x7d",
    "\x7d"]

/-- The template of buffers: a chain of single-slot stages. -/
def renderBuffer (name : String) : String :=
  lines [
    "template<pint W>",
    "defproc " ++ name ++ "_stage(chan?(int<W>)in; chan!(int<W>) out)",
    "\x7b",
    "  int<W> x;",
    "  chp \x7b",
    "    *[in?x; out!x; log(\"send \", x)]",
    "  \x7d",
    "\x7d",
    "",
    "template<pint D, W>",
    "export defproc " ++ name ++ "(chan?(int<W>)in; chan!(int<W>) out)",
    "\x7b",
    "  " ++ name ++ "_stage<W> s[D];",
    "  s[0].in = in;",
    "  (i:D-1: s[i].out = s[i+1].in;)",
    "  s[D-1].out = out;",
    "\x7d"]

/-- The template of splits with `n` outputs. -/
def renderSplit (name : String) (n : Nat) : String :=
  lines [
    "template<pint W1, W2>",
    "export defproc " ++ name ++ "(chan?(int<W1>)ctrl; chan?(int<W2>) in; " ++
      enumerate n "; " (fun i => s!"chan!(int<W2>) out{i}") ++ ")",
    "\x7b",
    "  int<W1> c;",
    "  int<W2> x;",
    "  chp \x7b",
    "    *[in?x, ctrl?c; log(\"receive \", c, \", \", x); [" ++
      enumerate n " [] " (fun i => s!"c={i} -> out{i}!x") ++ "]; log(\"send \", c)]",
    "  \x7d",
    "\x7d"]

/-- The template of merges with `n` inputs. -/
def renderMerge (name : String) (n : Nat) : String :=
  lines [
    "template<pint W1, W2>",
    "export defproc " ++ name ++ "(chan?(int<W1>)ctrl; " ++
      enumerate n "; " (fun i => s!"chan?(int<W2>) in{i}") ++ "; chan!(int<W2>) out)",
    "\x7b",
    "  int<W1> c;",
    "  int<W2> x;",
    "  chp \x7b",
    "    *[ctrl?c; log(\"receive \", c); [" ++
      enumerate n " [] " (fun i => s!"c={i} -> in{i}?x") ++
      "]; log(\"receive \", x); out!x; log(\"send \", x)]",
    "  \x7d",
    "\x7d"]

/-- The first lines of a join without a guard. -/
def joinHeader (name : String) (n : Nat) (arbiter : Bool) : List String :=
  let ins := enumerate n "; " (fun i => s!"chan?(int<W>) in{i}")
  if arbiter then
    ["template<pint W, C>",
     "export defproc " ++ name ++ "(" ++ ins ++ "; chan!(int<W>) out; chan!(int<C>) ctrl)"]
  else
    ["template<pint W>",
     "export defproc " ++ name ++ "(" ++ ins ++ "; chan!(int<W>) out)"]

/-- The template of mixers with `n` inputs, or of arbiters, which report the
    input that came first. -/
def renderJoin (name : String) (n : Nat) (arbiter : Bool) : String :=
  let arm := fun i => s!"#in{i} -> in{i}?x" ++ if arbiter then s!"; ctrl!{i}" else ""
  lines (joinHeader name n arbiter ++ [
    "\x7b",
    "  int<W> x;",
    "  chp \x7b",
    "    *[[| " ++ enumerate n " [] " arm ++ " |]; out!x; log(\"send \", x)]",
    "  \x7d",
    "\x7d"])

/-- The text of a template. -/
def render (t : Template) : String :=
  match t.body with
  | .func fu => fu.render
  | .copy => renderCopy t.name
  | .sink => renderSink t.name
  | .source => renderSource t.name
  | .buffer => renderBuffer t.name
  | .split n => renderSplit t.name n
  | .merge n => renderMerge t.name n
  | .mixer n => renderJoin t.name n false
  | .arbiter n => renderJoin t.name n true

/-- The text of a template whose statements may be numbered at will. The
    statements of a lowered unit are numbered from zero, so they always fit. -/
def render? (t : Template) : Option String :=
  match t.body with
  | .func fu => if fu.parametersFit then some t.render else none
  | _ => some t.render

end Template

end DataflowCircuit
