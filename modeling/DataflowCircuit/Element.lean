/-!
# Dataflow Elements

A process is a list of elements connected by channels. The same seven shapes
occur twice, once as they are written, with channel names and written
expressions, and once resolved, with channel identities and resolved
expressions. The shapes are therefore one type over a type `χ` of channel
references and a type `ε` of expressions, and resolving names is a traversal
of it.

## Main definitions

* `Buffer`: A buffer annotation of a function output.
* `Func`: A function with its output.
* `Element`: The seven shapes.
* `Element.kind`: The name of a shape in diagnostics.
* `Element.map`: Replace every reference.
* `Element.traverse`: Replace every reference, stopping at the first failure.
-/

namespace DataflowCircuit

/-- A buffer of `depth` slots, with a token that it holds at the start. -/
structure Buffer (ε : Type) where
  depth : Nat
  init : Option ε
  deriving DecidableEq, Repr

/-- `expr -> output`, where an unconnected output is `none`. -/
structure Func (χ ε : Type) where
  expr : ε
  buffer : Option (Buffer ε)
  output : Option χ
  deriving DecidableEq, Repr

/-- A dataflow element over channel references `χ` and expressions `ε`. -/
inductive Element (χ ε : Type) where
  | func (f : Func χ ε)
  /-- Routes `input` to the output that `guard` selects; an unconnected output
      is `none`. -/
  | split (guard input : χ) (outputs : List (Option χ))
  /-- Forwards the input that `guard` selects. -/
  | merge (guard : χ) (inputs : List χ) (output : χ)
  /-- Forwards whichever input arrives. -/
  | mixer (inputs : List χ) (output : χ)
  /-- Forwards whichever input arrives and reports its index on `ctrl`. -/
  | arbiter (inputs : List χ) (output ctrl : χ)
  /-- Consumes and drops. -/
  | sink (input : χ)
  /-- Functions that become one functional unit. -/
  | cluster (funcs : List (Func χ ε))
  deriving DecidableEq, Repr

variable {χ χ' ε ε' : Type}

/-- Replace the expression of a buffer annotation. -/
def Buffer.map (g : ε → ε') (b : Buffer ε) : Buffer ε' :=
  ⟨b.depth, b.init.map g⟩

/-- Replace every reference of a function. -/
def Func.map (f : χ → χ') (g : ε → ε') (fn : Func χ ε) : Func χ' ε' :=
  ⟨g fn.expr, fn.buffer.map (Buffer.map g), fn.output.map f⟩

/-- Replace an optional reference, stopping at a failure. -/
def traverseOption {α β η : Type} (f : α → Except η β) : Option α → Except η (Option β)
  | none => .ok none
  | some a => do return some (← f a)

/-- Replace the references of a list from the left, stopping at the first
    failure. -/
def traverseList {α β η : Type} (f : α → Except η β) : List α → Except η (List β)
  | [] => .ok []
  | a :: as => do
    let b ← f a
    return b :: (← traverseList f as)

/-- Replace every reference of a function: its initial token, its expression,
    then its output. -/
def Func.traverse {η : Type} (f : χ → Except η χ') (g : ε → Except η ε') (fn : Func χ ε) :
    Except η (Func χ' ε') := do
  let buffer ← traverseOption
    (fun b : Buffer ε => do return (⟨b.depth, ← traverseOption g b.init⟩ : Buffer ε')) fn.buffer
  let expr ← g fn.expr
  let output ← traverseOption f fn.output
  return ⟨expr, buffer, output⟩

namespace Element

/-- The name of a shape in diagnostics. -/
def kind : Element χ ε → String
  | .func _ => "function"
  | .split .. => "split"
  | .merge .. => "merge"
  | .mixer .. => "mixer"
  | .arbiter .. => "arbiter"
  | .sink _ => "sink"
  | .cluster _ => "dataflow_cluster"

/-- Replace every channel reference by `f` and every expression by `g`. -/
def map (f : χ → χ') (g : ε → ε') : Element χ ε → Element χ' ε'
  | .func fn => .func (fn.map f g)
  | .split guard input outputs => .split (f guard) (f input) (outputs.map (Option.map f))
  | .merge guard inputs output => .merge (f guard) (inputs.map f) (f output)
  | .mixer inputs output => .mixer (inputs.map f) (f output)
  | .arbiter inputs output ctrl => .arbiter (inputs.map f) (f output) (f ctrl)
  | .sink input => .sink (f input)
  | .cluster funcs => .cluster (funcs.map (Func.map f g))

/-- Replace every reference in the order in which it is written, guards first,
    stopping at the first failure. -/
def traverse {η : Type} (f : χ → Except η χ') (g : ε → Except η ε') :
    Element χ ε → Except η (Element χ' ε')
  | .func fn => do return .func (← fn.traverse f g)
  | .split guard input outputs => do
    let guard ← f guard
    let input ← f input
    return .split guard input (← traverseList (traverseOption f) outputs)
  | .merge guard inputs output => do
    let guard ← f guard
    let inputs ← traverseList f inputs
    return .merge guard inputs (← f output)
  | .mixer inputs output => do
    let inputs ← traverseList f inputs
    return .mixer inputs (← f output)
  | .arbiter inputs output ctrl => do
    let inputs ← traverseList f inputs
    let output ← f output
    return .arbiter inputs output (← f ctrl)
  | .sink input => do return .sink (← f input)
  | .cluster funcs => do return .cluster (← traverseList (Func.traverse f g) funcs)

end Element

end DataflowCircuit
