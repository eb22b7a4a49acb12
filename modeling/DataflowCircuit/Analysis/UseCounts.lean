import DataflowCircuit.Analysis.Reads
import DataflowCircuit.Analysis.Shape

/-!
# Counting Reads

How often each channel of a process is read. Entries stand in the order of
first reads, which is the order in which copies are written later.

The counters are natural numbers and never overflow. Counters of 32 bits agree
with them as long as every channel is read fewer than `2 ^ 32` times.

## Main definitions

* `UseCounts`: The number of reads of each channel that is read.
* `UseCounts.record`: Count one more read.
* `UseCounts.collect`: The counts of a process.
* `UseCounts.reads`: The number of reads of a channel.

## Theorems

* `UseCounts.reads_record`: Recording a channel raises its count by one and
  no other.
-/

namespace DataflowCircuit

/-- The channels that are read, each with its number of reads, in order of
    first reads. The numbers have no upper bound. -/
abbrev UseCounts := List (ChannelId × Nat)

namespace UseCounts

/-- Count one more read of a channel. -/
def record (id : ChannelId) : UseCounts → UseCounts
  | [] => [(id, 1)]
  | (c, n) :: rest => if c = id then (c, n + 1) :: rest else (c, n) :: record id rest

/-- The number of reads of a channel. -/
def reads (uses : UseCounts) (id : ChannelId) : Nat :=
  (uses.lookup id).getD 0

/-- Is a channel read at all? -/
def isRead (uses : UseCounts) (id : ChannelId) : Bool :=
  (uses.lookup id).isSome

/-- Count the reads of elements in order, refusing elements of the wrong
    shape along the way. -/
def collectFrom (s : Scope) (uses : UseCounts) :
    List (Element ChannelId Expr) → Except Error UseCounts
  | [] => .ok uses
  | el :: els => do
    el.check s
    collectFrom s (el.reads.foldl (fun uses id => uses.record id) uses) els

/-- The counts of a process. -/
def collect (p : Process) : Except Error UseCounts :=
  collectFrom p.scope [] p.elements

/-- Recording a channel raises its count by one and no other. -/
theorem reads_record (uses : UseCounts) (id c : ChannelId) :
    (uses.record id).reads c = uses.reads c + if c = id then 1 else 0 := by
  induction uses with
  | nil =>
      by_cases h : c = id
      · simp [record, reads, h]
      · have hb : (c == id) = false := by simp [h]
        simp [record, reads, List.lookup_cons, hb, h]
  | cons entry rest ih =>
      rcases entry with ⟨d, n⟩
      unfold record
      by_cases hd : d = id
      · subst hd
        by_cases h : c = d
        · subst h
          simp [reads]
        · have hb : (c == d) = false := by simp [h]
          simp [reads, List.lookup_cons, hb, h]
      · simp only [hd, if_false]
        by_cases h : c = d
        · subst h
          simp [reads, hd]
        · have hb : (c == d) = false := by simp [h]
          simpa [reads, List.lookup_cons, hb] using ih

end UseCounts

end DataflowCircuit
