import DataflowCircuit.Process.Printer

/-!
# Shapes of Elements

The conditions on a single element that the grammar does not express. They
are checked before anything is counted or lowered.

## Main definitions

* `Func.shapeFault?`, `Element.shapeFault?`: The first violated condition.
* `Element.check`: The condition as an error that names the element.
-/

namespace DataflowCircuit

/-- What is wrong with a buffered function. -/
def Buffer.shapeFault? (expr : Expr) (b : Buffer Expr) : Option ShapeFault :=
  if expr.asConst?.isSome then some .bufferedConstant
  else
    match b.init with
    | some init => if init.asConst?.isNone then some .computedToken else none
    | none => if b.depth = 0 then some .emptyBuffer else none

/-- What is wrong with a function. -/
def Func.shapeFault? (f : Func ChannelId Expr) : Option ShapeFault :=
  if f.output.isNone then some .noOutput
  else f.buffer.bind (Buffer.shapeFault? f.expr)

/-- A join needs two inputs. -/
def inputsFault? (kind : String) (inputs : Nat) : Option ShapeFault :=
  if inputs < 2 then some (.fewInputs kind inputs) else none

namespace Element

/-- What is wrong with an element. -/
def shapeFault? : Element ChannelId Expr → Option ShapeFault
  | .func f => f.shapeFault?
  | .cluster funcs =>
    if funcs.isEmpty then some .noFunctions else funcs.findSome? Func.shapeFault?
  | .split _ _ outputs => if outputs.length < 2 then some .fewOutputs else none
  | .merge _ inputs _ => inputsFault? "merge" inputs.length
  | .mixer inputs _ => inputsFault? "mixer" inputs.length
  | .arbiter inputs _ _ => inputsFault? "arbiter" inputs.length
  | .sink _ => none

/-- Refuse an element of the wrong shape. -/
def check (s : Scope) (el : Element ChannelId Expr) : Except Error Unit :=
  match el.shapeFault? with
  | some fault => .error (.malformedElement (el.print s) fault)
  | none => .ok ()

end Element

end DataflowCircuit
