import DataflowCircuit.Process.Basic
import DataflowCircuit.Source.Program

/-!
# From Written to Resolved Programs

A written process becomes a process by declaring its ports and then its body
channels, connecting its aliases, and resolving the names in its statements.
Both casts become one: a truth-value cast is a cast to one bit.

## Main definitions

* `Source.Expr.resolve`: An expression with its names resolved.
* `Source.Process.resolve`: A process with its names resolved.
* `Source.Program.resolve`: A program, in which no two processes share a
  name.
-/

namespace DataflowCircuit

namespace Source

/-- Resolve the names of an expression from the left. The width of a cast is
    checked before its argument is resolved. -/
def Expr.resolve (s : Scope) : Expr → Except Error DataflowCircuit.Expr
  | .const v => .ok (.const v)
  | .var name => do return .var (← s.resolve name)
  | .binary op lhs rhs => do
    let lhs ← lhs.resolve s
    return .binary op lhs (← rhs.resolve s)
  | .unary op arg => do return .unary op (← arg.resolve s)
  | .query c t e => do
    let c ← c.resolve s
    let t ← t.resolve s
    return .query c t (← e.resolve s)
  | .intCast arg none => do return .cast (← arg.resolve s) none
  | .intCast arg (some w) =>
    if isChannelWidth w then do return .cast (← arg.resolve s) (some w)
    else .error (.castWidth w)
  | .boolCast arg => do return .cast (← arg.resolve s) (some 1)

/-- Resolve the names of a statement. -/
def Statement.resolve (s : Scope) (st : Statement) :
    Except Error (Element ChannelId DataflowCircuit.Expr) :=
  st.traverse s.resolve (Expr.resolve s)

/-- The channels a written process declares: its ports, then its body
    channels. -/
def Process.channels (p : Process) : List NewChannel :=
  p.ports.map (fun port => ⟨port.name, port.type, .port port.direction⟩) ++
    p.declarations.map fun d => ⟨d.name, d.type, .internal⟩

/-- The process that a written process denotes. -/
def Process.resolve (p : Process) : Except Error DataflowCircuit.Process := do
  let scope ← Scope.empty.declareAll p.channels
  let scope ← scope.connectAll (p.aliases.map fun a => (a.lhs, a.rhs))
  let elements ← traverseList (Statement.resolve scope) p.statements
  return .finish p.name scope elements

/-- Resolve the processes of a program in order, where `taken` are the names
    of the processes before them. -/
def Program.resolveFrom (taken : List String) : Program → Except Error DataflowCircuit.Program
  | [] => .ok []
  | p :: ps =>
    if p.name ∈ taken then .error (.alreadyBound p.name .process)
    else do
      let q ← p.resolve
      return q :: (← resolveFrom (p.name :: taken) ps)

/-- The program that a written program denotes. -/
def Program.resolve (program : Program) : Except Error DataflowCircuit.Program :=
  resolveFrom [] program

end Source

end DataflowCircuit
