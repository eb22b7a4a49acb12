/-!
# Costs

The physical cost of one instance: leakage in nanowatts, energy per token in
femtojoules, delay in picoseconds and area in square micrometres. All four
are signed 64-bit numbers.

## Main definitions

* `Cost`: The four numbers.
* `Cost.text`: The numbers as they stand in a metrics record.
-/

namespace DataflowCircuit

/-- The physical cost of an instance. -/
structure Cost where
  leakage : Int
  energy : Int
  delay : Int
  area : Int
  deriving DecidableEq, Repr

/-- The numbers as they stand in a metrics record. -/
def Cost.text (c : Cost) : String :=
  s!"{c.leakage} {c.energy} {c.delay} {c.area}"

end DataflowCircuit
