import DataflowCircuit.Lowering.Functions
import DataflowCircuit.Lowering.Structural

/-!
# Lowering Processes

A process is lowered in three steps: its reads are counted, every channel
read more than once gets a copy, and every element becomes instances whose
inputs are served by the copies. Processes of a run are lowered one after
another in one session.

## Main definitions

* `Process.declarations`: The declarations of a lowered process.
* `lowerElement`: Lower one element.
* `lowerProcess`: Lower a process.
* `lowerAll`: Lower processes until one fails.
-/

namespace DataflowCircuit

/-- A lowered process with its declarations only. -/
def Process.declarations (p : Process) : LoweredProcess where
  name := p.name
  ports := (Process.grouped p.scope p.ports).filterMap fun (name, c) =>
    match c.kind with
    | .port direction => some ⟨name, direction, c.type⟩
    | _ => none
  channels := (Process.grouped p.scope p.locals).map fun (name, c) => ⟨name, c.type⟩
  aliases := p.aliasPairs
  copies := []
  instances := []
  templates := []
  costBlocks := []

namespace Lowering

/-- Write the copy of a channel. -/
def lowerCopy (s : Supply) : Step Unit := do
  let cost ← onSession (Session.requireCost s.key)
  onSession (Session.recordCopy s.width s.reads)
  register ⟨"copy", .copy⟩ (some cost) (throughCosts cost) s.key
  output fun out => { out with copies := out.copies ++ [⟨s.key, s.instanceName, [s.name]⟩] }

/-- Write copies in order. -/
def lowerCopies : List Supply → Step Unit
  | [] => return ()
  | s :: rest => do
    lowerCopy s
    lowerCopies rest

/-- Lower one element. -/
def lowerElement (sub : Subject) (el : Element ChannelId Expr) : Step Unit :=
  match el with
  | .func f => lowerFuncs sub el false [f]
  | .cluster funcs => lowerFuncs sub el true funcs
  | .split guard input outputs => lowerSplit sub el guard input outputs
  | .merge guard inputs out => lowerMerge sub el guard inputs out
  | .mixer inputs out => lowerMixer sub el inputs out
  | .arbiter inputs out ctrl => lowerArbiter sub el inputs out ctrl
  | .sink input => lowerSink sub el input

/-- Lower elements in order. -/
def lowerElements (sub : Subject) : List (Element ChannelId Expr) → Step Unit
  | [] => return ()
  | el :: els => do
    lowerElement sub el
    lowerElements sub els

end Lowering

/-- Lower a process. A failure keeps the changes made to the session, but no
    output. -/
def lowerProcess (p : Process) : Session.Step LoweredProcess := fun s =>
  match UseCounts.collect p with
  | .error e => .error e s
  | .ok uses =>
    match CopyPlan.plan p.scope uses with
    | .error e => .error e s
    | .ok plan =>
      let sub : Subject := ⟨p, uses⟩
      let start : Lowering := ⟨s, plan, .ofNames p.scope.names, p.declarations⟩
      let run : Lowering.Step Unit := do
        Lowering.lowerCopies plan.copies
        Lowering.lowerElements sub p.elements
      match run start with
      | .ok () l => .ok l.out l.session
      | .error e l => .error e l.session

/-- Lower processes in order, stopping at the first failure. -/
def lowerAll : Program → Session.Step (List LoweredProcess)
  | [] => return []
  | p :: ps => do
    let q ← lowerProcess p
    return q :: (← lowerAll ps)

end DataflowCircuit
