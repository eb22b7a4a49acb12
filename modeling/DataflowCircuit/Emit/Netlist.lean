import DataflowCircuit.Emit.Template
import DataflowCircuit.Naming

/-!
# Netlist and Cost Text

The text of lowered processes and of cost blocks. Instances refer to their
templates through the name space of the library.

## Main definitions

* `librarySpace`: The name space of the templates.
* `Instance.render`: An instance.
* `LoweredProcess.render`: A process of the netlist.
* `CostBlock.render`: A block of the cost configuration.
-/

namespace DataflowCircuit

open Emit

/-- The name space of the templates. -/
def librarySpace : String := "dflowstd"

/-- An instance as a line of a process. -/
def Instance.render (inst : Instance) : String :=
  "  " ++ librarySpace ++ "::" ++ inst.key ++ " " ++ inst.name ++ "(" ++
    String.intercalate ", " inst.ports ++ ");"

/-- A port in a signature. -/
def PortDecl.render (p : PortDecl) : String :=
  "chan" ++ p.direction.symbol ++ "(" ++ p.type.text ++ ") " ++ p.name

/-- A process of the netlist. -/
def LoweredProcess.render (p : LoweredProcess) : String :=
  lines (
    ["defproc " ++ p.name ++ "(" ++ String.intercalate "; " (p.ports.map PortDecl.render) ++ ")",
     "\x7b"] ++
    p.channels.map (fun c => "  chan(" ++ c.type.text ++ ") " ++ c.name ++ ";") ++
    p.aliases.map (fun (name, root) => "  " ++ name ++ " = " ++ root ++ ";") ++
    ["  /* copy processes */"] ++
    p.copies.map Instance.render ++
    p.instances.map Instance.render ++
    ["\x7d"])

/-- The cost of a port as lines of a block. -/
def PortCost.renderLines (p : PortCost) : List String :=
  ["  begin " ++ p.name,
   s!"    int D {p.delay}",
   s!"    int E {p.energy}",
   "  end"]

/-- A block of the cost configuration. Ports are only listed if there is a
    cost. -/
def CostBlock.render (b : CostBlock) : String :=
  lines (
    ["begin " ++ normalizeKey b.key] ++
    (b.cost.elim [] fun c =>
      b.ports.flatMap PortCost.renderLines ++
        [s!"  real leakage {c.leakage}e-9", s!"  int area {c.area}"]) ++
    ["end"])

end DataflowCircuit
