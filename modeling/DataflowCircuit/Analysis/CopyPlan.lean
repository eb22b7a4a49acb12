import DataflowCircuit.Analysis.UseCounts
import DataflowCircuit.Naming

/-!
# Copy Plans

A channel delivers each token once, so a channel that is read several times
is fed into a copy, and each of its readers takes one output of the copy. The
plan keeps, for every channel that is read, how many reads there are and how
many of them have been served. A channel read once serves its reader itself.

Asking for one more read than was counted is an error, and an error changes
nothing.

As in the counts, the numbers of reads are natural numbers and never overflow,
which agrees with counters of 32 bits below `2 ^ 32` reads of a channel.

## Main definitions

* `Supply`: A channel that is read, with its counted and served reads.
* `Supply.wire`: The wire that serves a read.
* `CopyPlan`: The supplies of a process.
* `CopyPlan.plan`: The plan for given counts.
* `CopyPlan.copies`: The supplies that need a copy, in order.
* `CopyPlan.next`: The wire that serves the next read of a channel.
-/

namespace DataflowCircuit

/-- A channel that is read, with counters that have no upper bound. -/
structure Supply where
  channel : ChannelId
  name : String
  width : Nat
  /-- The number of reads that were counted. -/
  reads : Nat
  /-- The number of reads that were served. -/
  served : Nat
  deriving DecidableEq, Repr

namespace Supply

/-- Is a copy needed? -/
def isCopied (s : Supply) : Bool :=
  2 ≤ s.reads

/-- The instance key of the copy. -/
def key (s : Supply) : String :=
  s!"copy<{s.width},{s.reads}>"

/-- The instance name of the copy. -/
def instanceName (s : Supply) : String :=
  normalizeChannel s.name ++ "copy"

/-- The name of an output of the copy. -/
def port (s : Supply) (i : Nat) : String :=
  s.instanceName ++ ".out[" ++ toString i ++ "]"

/-- The wire that serves read number `i`: an output of the copy, or the
    channel itself if it is read once. -/
def wire (s : Supply) (i : Nat) : String :=
  if s.isCopied then s.port i else s.name

end Supply

/-- The channels that are read, in order of first reads. -/
structure CopyPlan where
  supplies : List Supply
  deriving DecidableEq, Repr

namespace CopyPlan

/-- The plan for given counts. -/
def plan (s : Scope) (uses : UseCounts) : Except Error CopyPlan := do
  let supplies ← traverseList
    (fun (id, reads) => do
      let width ← s.width id
      return { channel := id, name := s.nameOf id, width, reads, served := 0 })
    uses
  return ⟨supplies⟩

/-- The supplies that need a copy, in order. -/
def copies (p : CopyPlan) : List Supply :=
  p.supplies.filter Supply.isCopied

/-- The supply of a channel. -/
def supply? (p : CopyPlan) (id : ChannelId) : Option Supply :=
  p.supplies.find? (·.channel = id)

/-- Mark one more read of a channel as served. -/
def serve (p : CopyPlan) (id : ChannelId) : CopyPlan :=
  ⟨p.supplies.map fun s => if s.channel = id then { s with served := s.served + 1 } else s⟩

/-- The wire that serves the next read of a channel, and the plan after
    it. -/
def next (p : CopyPlan) (id : ChannelId) : Except Error (String × CopyPlan) :=
  match p.supply? id with
  | none => .error (.inconsistentGraph (.neverCounted (id + 1)))
  | some s =>
    if s.served < s.reads then .ok (s.wire s.served, p.serve id)
    else .error (.passDivergence s.name s.reads)

end CopyPlan

end DataflowCircuit
