import DataflowCircuit.Proofs.Cost.SharedCosts
import DataflowCircuit.Proofs.Lowering.Repetition
import DataflowCircuit.Proofs.Netlist.Wiring
import Mathlib.Algebra.BigOperators.Group.List.Basic
import Mathlib.Algebra.Ring.Int.Defs

/-!
# Accounts of a Run

The statistics of a run are a book of their own. They are written while call
sites are registered, and what they say is never compared with what was emitted.
This file does that: the entries for a key add up to the cost in the block of the
key, as many times as the key was emitted.

What is recorded is a list of amounts, each under a key, and a tally is a way to
add them up that does not depend on their order. So the tallies are first shown
to hold the sums of their amounts, key by key and altogether, and only then are
the amounts compared with the netlist. A key has one cost in the whole run, which
is what its block says, because calls with the same key have the same cost; the
amounts under a key are therefore copies of one number, and their sum is a
product.

Sums that leave the signed 64-bit range are an error, and whether partial sums
do depends on the order, so the order matters for that and for nothing else.

## Main definitions

* `Tally.Holds`: A tally holds the sums of some amounts.
* `Statistics.Holds`: Statistics hold what was counted.
* `Tally.Bounded`: No partial sum of a tally leaves its range.
* `Call.counts`: What a call counts.
* `Statistics.AccountsFor`: Statistics agree with what was emitted.

## Theorems

* `Tally.holds_add`, `Statistics.holds_countAll`: Counting keeps the sums.
* `Statistics.Holds.perm`: The order of what is counted does not matter.
* `Tally.total_ok_iff`: What the total of a tally is.
* `accountsFor_of_holds`: What the calls of a run count is what it emitted.
* `statistics_account_for_netlist`: The statistics of a run agree with its
  netlist.
-/

namespace DataflowCircuit

section Tallies

/-- The sum of the amounts under a key, if there are any. -/
def sumUnder (key : String) (amounts : List (String × Int)) : Option Int :=
  let own := (amounts.filter (·.1 = key)).map Prod.snd
  if own = [] then none else some own.sum

/-- One more amount. -/
theorem sumUnder_concat (key k : String) (n : Int) (amounts : List (String × Int)) :
    sumUnder k (amounts ++ [(key, n)])
      = if k = key then some ((sumUnder key amounts).getD 0 + n) else sumUnder k amounts := by
  unfold sumUnder
  by_cases hk : k = key
  · subst hk
    rw [List.filter_append, List.map_append, if_pos rfl]
    by_cases hown : (amounts.filter (·.1 = k)).map Prod.snd = []
    · simp [hown]
    · simp [hown]
  · have hown : (amounts ++ [(key, n)]).filter (·.1 = k) = amounts.filter (·.1 = k) := by
      rw [List.filter_append, List.filter_cons_of_neg (by simp [Ne.symm hk]), List.filter_nil,
        List.append_nil]
    rw [hown, if_neg hk]

/-- A sum is the same in any order. -/
theorem sumUnder_perm {xs ys : List (String × Int)} (h : xs.Perm ys) (key : String) :
    sumUnder key xs = sumUnder key ys := by
  -- The amounts under a key are permuted with the others.
  have hown := (h.filter (·.1 = key)).map Prod.snd
  unfold sumUnder
  by_cases hnil : (ys.filter (·.1 = key)).map Prod.snd = []
  · rw [hnil] at hown
    simp only [hnil, List.perm_nil.mp hown]
  · have hne : ¬ (xs.filter (·.1 = key)).map Prod.snd = [] := by
      intro hxs
      rw [hxs] at hown
      exact hnil (List.perm_nil.mp hown.symm)
    simp only [if_neg hnil, if_neg hne, hown.sum_eq]

namespace Tally

/-- A tally has the sums of some amounts, key by key and altogether. -/
structure Holds (amounts : List (String × Int)) (t : Tally) : Prop where
  keys : ∀ key, t.lookup key = sumUnder key amounts
  sum : (t.map Prod.snd).sum = (amounts.map Prod.snd).sum

/-- An empty tally holds no amounts. -/
theorem holds_nil : Holds [] [] :=
  ⟨fun _ => rfl, rfl⟩

/-- The order of the amounts does not matter. -/
theorem Holds.perm {xs ys : List (String × Int)} {t : Tally} (h : Holds xs t) (hp : xs.Perm ys) :
    Holds ys t :=
  ⟨fun key => (h.keys key).trans (sumUnder_perm hp key), h.sum.trans (hp.map Prod.snd).sum_eq⟩

/-- Adding to a key changes its entry and no other. -/
theorem add_ok (key : String) (n : Int) (t t' : Tally) (h : t.add key n = .ok t') :
    (∀ k, t'.lookup k = if k = key then some ((t.lookup key).getD 0 + n) else t.lookup k) ∧
      (t'.map Prod.snd).sum = (t.map Prod.snd).sum + n := by
  induction t generalizing t' with
  | nil =>
      cases h
      refine ⟨fun k => ?_, by simp⟩
      by_cases hk : k = key
      · simp [hk]
      · have hb : (k == key) = false := by simp [hk]
        simp [List.lookup_cons, hb, hk]
  | cons entry rest ih =>
      rcases entry with ⟨k₀, m⟩
      rw [add] at h
      -- The entry for the key is raised where it stands. Without one it comes last.
      by_cases hkey : k₀ = key
      · subst hkey
        rw [if_pos rfl] at h
        unfold Number.addSigned64? at h
        split at h
        · rename_i sum hsum
          cases h
          split at hsum
          · cases hsum
            refine ⟨fun k => ?_, by simp only [List.map_cons, List.sum_cons]; omega⟩
            by_cases hk : k = k₀
            · simp [hk]
            · have hb : (k == k₀) = false := by simp [hk]
              simp [List.lookup_cons, hb, hk]
          · cases hsum
        · cases h
      · rw [if_neg hkey] at h
        rcases except_bind_ok_iff.mp h with ⟨rest', hrest, h⟩
        have ht' := except_pure_ok_iff.mp h
        rcases ih rest' hrest with ⟨hlook, hsum⟩
        rw [← ht']
        refine ⟨fun k => ?_, by simp only [List.map_cons, List.sum_cons]; omega⟩
        have hb : (key == k₀) = false := by simp [Ne.symm hkey]
        rw [List.lookup_cons, List.lookup_cons, List.lookup_cons, hb, hlook k]
        by_cases hk : k = k₀
        · subst hk
          simp [hkey]
        · have hb' : (k == k₀) = false := by simp [hk]
          rw [hb']

/-- Adding an amount keeps the sums. -/
theorem holds_add {amounts : List (String × Int)} {t t' : Tally} {key : String} {n : Int}
    (h : Holds amounts t) (hadd : t.add key n = .ok t') : Holds (amounts ++ [(key, n)]) t' := by
  rcases add_ok key n t t' hadd with ⟨hlook, hsum⟩
  refine ⟨fun k => ?_, ?_⟩
  · rw [hlook k, sumUnder_concat, h.keys key, h.keys k]
  · rw [hsum, h.sum, List.map_append, List.sum_append]
    simp

/-- No partial sum leaves the signed 64-bit range. -/
def Bounded (t : Tally) : Prop :=
  ∀ ms, ms <+: t.map Prod.snd → Number.inSigned64 ms.sum = true

/-- A sum exists exactly if no partial sum leaves the range. -/
theorem foldlM_addSigned64_iff (a n : Int) (ns : List Int) (ha : Number.inSigned64 a = true) :
    ns.foldlM Number.addSigned64? a = some n ↔
      (∀ ms, ms <+: ns → Number.inSigned64 (a + ms.sum) = true) ∧ n = a + ns.sum := by
  induction ns generalizing a with
  | nil =>
      rw [List.foldlM_nil]
      constructor
      · intro h
        cases h
        refine ⟨fun ms hms => ?_, by simp⟩
        rw [List.prefix_nil.mp hms, List.sum_nil, Int.add_zero]
        exact ha
      · rintro ⟨_, rfl⟩
        simp
  | cons m ns ih =>
      rw [List.foldlM_cons]
      -- The sum exists as far as the first partial sum does, and the rest starts from there.
      by_cases hm : Number.inSigned64 (a + m) = true
      · have hstep : Number.addSigned64? a m = some (a + m) := if_pos hm
        rw [hstep, Option.bind_eq_bind, Option.bind_some, ih (a + m) hm, List.sum_cons,
          ← Int.add_assoc]
        refine and_congr_left fun _ => ?_
        constructor
        · intro h ms hms
          rcases List.prefix_cons_iff.mp hms with rfl | ⟨ms', rfl, hms'⟩
          · rw [List.sum_nil, Int.add_zero]
            exact ha
          · rw [List.sum_cons, ← Int.add_assoc]
            exact h ms' hms'
        · intro h ms hms
          have hcons := h (m :: ms) ((List.cons_prefix_cons).mpr ⟨rfl, hms⟩)
          rw [List.sum_cons, ← Int.add_assoc] at hcons
          exact hcons
      · have hstep : Number.addSigned64? a m = none := if_neg hm
        rw [hstep, Option.bind_eq_bind, Option.bind_none]
        refine iff_of_false (by simp) ?_
        rintro ⟨h, _⟩
        have hone := h [m] ((List.cons_prefix_cons).mpr ⟨rfl, List.nil_prefix⟩)
        rw [List.sum_singleton] at hone
        exact absurd hone hm

/-- The total is the sum, if no partial sum leaves the range. -/
theorem total_ok_iff (t : Tally) (n : Int) :
    t.total = .ok n ↔ t.Bounded ∧ n = (t.map Prod.snd).sum := by
  have hfold := foldlM_addSigned64_iff 0 n (t.map Prod.snd) (by decide)
  simp only [Int.zero_add] at hfold
  unfold total Bounded
  rw [← hfold]
  unfold Number.sumSigned64?
  cases (t.map Prod.snd).foldlM Number.addSigned64? 0 with
  | none => simp
  | some m => simp

end Tally

end Tallies

section Counting

/-- The amounts that are counted, with their keys. -/
def amounts (f : Cost → Int) (counts : List Count) : List (String × Int) :=
  counts.filterMap fun
    | .cost key cost => some (key, f cost)
    | .copy _ _ => none

/-- Is it a copy of a size? -/
def Count.isCopy (width outputs : Nat) : Count → Bool
  | .copy w n => (w, n) = (width, outputs)
  | .cost _ _ => false

namespace Statistics

/-- Statistics hold what was counted, whatever the order was. -/
structure Holds (counts : List Count) (stats : Statistics) : Prop where
  area : stats.area.Holds (amounts Cost.area counts)
  leakage : stats.leakage.Holds (amounts Cost.leakage counts)
  copies : ∀ w n, stats.copyCount w n = counts.countP (Count.isCopy w n)

/-- New statistics hold nothing. -/
theorem holds_empty : empty.Holds [] :=
  ⟨Tally.holds_nil, Tally.holds_nil, fun _ _ => rfl⟩

/-- The order of what is counted does not matter. -/
theorem Holds.perm {xs ys : List Count} {stats : Statistics} (h : stats.Holds xs)
    (hp : xs.Perm ys) : stats.Holds ys :=
  ⟨h.area.perm (hp.filterMap _), h.leakage.perm (hp.filterMap _),
    fun w n => (h.copies w n).trans (hp.countP_eq _)⟩

/-- A size is raised by one and no other is. -/
theorem lookup_bump (size other : Nat × Nat) (sizes : List ((Nat × Nat) × Nat)) :
    ((bump size sizes).lookup other).getD 0
      = (sizes.lookup other).getD 0 + if size = other then 1 else 0 := by
  induction sizes with
  | nil =>
      by_cases h : size = other
      · simp [bump, h]
      · have hb : (other == size) = false := by simp [Ne.symm h]
        simp [bump, List.lookup_cons, hb, h]
  | cons entry rest ih =>
      rcases entry with ⟨s, n⟩
      unfold bump
      -- A size that is there already is raised where it stands.
      by_cases hs : s = size
      · subst hs
        by_cases h : s = other
        · simp [h]
        · have hb : (other == s) = false := by simp [Ne.symm h]
          simp [List.lookup_cons, hb, h]
      · rw [if_neg hs, List.lookup_cons, List.lookup_cons]
        by_cases h : other = s
        · subst h
          simp [Ne.symm hs]
        · have hb : (other == s) = false := by simp [h]
          rw [hb]
          exact ih

/-- A copy is counted under its size and no other. -/
theorem copyCount_recordCopy (stats : Statistics) (width outputs w n : Nat) :
    (stats.recordCopy width outputs).copyCount w n
      = stats.copyCount w n + if (width, outputs) = (w, n) then 1 else 0 :=
  lookup_bump (width, outputs) (w, n) stats.copies

/-- Counting something keeps the sums. -/
theorem holds_count {counts : List Count} {stats stats' : Statistics} (h : stats.Holds counts)
    (c : Count) (hc : stats.count c = .ok stats') : stats'.Holds (counts ++ [c]) := by
  cases c with
  | cost key cost =>
      rcases except_bind_ok_iff.mp hc with ⟨area, harea, hc⟩
      rcases except_bind_ok_iff.mp hc with ⟨leakage, hleakage, hc⟩
      rw [← except_pure_ok_iff.mp hc]
      refine ⟨?_, ?_, fun w n => ?_⟩
      · unfold amounts
        rw [List.filterMap_append]
        exact Tally.holds_add h.area harea
      · unfold amounts
        rw [List.filterMap_append]
        exact Tally.holds_add h.leakage hleakage
      · rw [List.countP_append]
        exact h.copies w n
  | copy width outputs =>
      cases hc
      refine ⟨?_, ?_, fun w n => ?_⟩
      · unfold amounts
        rw [List.filterMap_append]
        -- A copy has no amount of its own.
        exact (List.append_nil _).symm ▸ h.area
      · unfold amounts
        rw [List.filterMap_append]
        exact (List.append_nil _).symm ▸ h.leakage
      · rw [copyCount_recordCopy, h.copies w n, List.countP_append, List.countP_singleton]
        simp [Count.isCopy]

/-- So does counting many things. -/
theorem holds_countAll {before counts : List Count} {stats stats' : Statistics}
    (h : stats.Holds before) (hrun : stats.countAll counts = .ok stats') :
    stats'.Holds (before ++ counts) := by
  induction counts generalizing before stats with
  | nil =>
      cases hrun
      rw [List.append_nil]
      exact h
  | cons c counts ih =>
      rcases except_bind_ok_iff.mp hrun with ⟨stats₁, hc, hrest⟩
      have hall := ih (holds_count h c hc) hrest
      rw [List.append_assoc] at hall
      exact hall

end Statistics

end Counting

section Calls

/-- A copy is counted by its size. -/
def Component.sizeCounts : Component → List Count
  | .copy width reads => [.copy width reads]
  | _ => []

/-- A cost is counted under its key, if there is one. -/
def costCounts (key : String) (cost : Option Cost) : List Count :=
  cost.elim [] fun cost => [.cost key cost]

/-- What a call counts. -/
def Call.counts (c : Call) : List Count :=
  c.component.sizeCounts ++ costCounts c.key c.cost

/-- A component is counted as the list of what it counts. -/
theorem Component.count_eq (c : Component) (cost : Option Cost) (stats : Statistics) :
    c.count cost stats = stats.countAll (c.sizeCounts ++ costCounts c.key cost) := by
  rw [Statistics.countAll_append]
  cases cost with
  | none => cases c <;> rfl
  | some cost =>
      have hcost : ∀ (key : String) (stats : Statistics),
          stats.countAll (costCounts key (some cost)) = stats.record key cost :=
        fun _ stats => stats.countAll_single _
      cases c with
      | copy width reads => exact (hcost _ (stats.recordCopy width reads)).symm
      | _ => exact (hcost _ stats).symm

/-- Calls count one after another. -/
theorem countAll_calls (calls : List Call) (stats : Statistics) :
    calls.foldlM Call.count stats = stats.countAll (calls.flatMap Call.counts) := by
  induction calls generalizing stats with
  | nil => rfl
  | cons c calls ih =>
      rw [List.foldlM_cons, List.flatMap_cons, Statistics.countAll_append]
      rw [show c.count stats = stats.countAll c.counts from c.component.count_eq c.cost stats]
      exact congrArg _ (funext ih)

/-- The amounts of calls are their costs. -/
theorem amounts_calls (f : Cost → Int) (calls : List Call) :
    amounts f (calls.flatMap Call.counts)
      = calls.filterMap fun c => c.cost.map fun cost => (c.key, f cost) := by
  induction calls with
  | nil => rfl
  | cons c calls ih =>
      -- The size of a copy is counted, but not as an amount.
      have hown : amounts f c.counts = (c.cost.map fun cost => (c.key, f cost)).toList := by
        unfold Call.counts
        cases c.component <;> cases c.cost <;> rfl
      have hsplit : amounts f (c.counts ++ calls.flatMap Call.counts)
          = amounts f c.counts ++ amounts f (calls.flatMap Call.counts) :=
        List.filterMap_append
      rw [List.flatMap_cons, hsplit, hown, ih]
      cases hcost : c.cost with
      | none =>
          rw [List.filterMap_cons_none (by rw [hcost]; rfl)]
          rfl
      | some cost =>
          rw [List.filterMap_cons_some (b := (c.key, f cost)) (by rw [hcost]; rfl)]
          rfl

/-- The copies of calls are their components. -/
theorem copies_calls (w n : Nat) (calls : List Call) :
    (calls.flatMap Call.counts).countP (Count.isCopy w n)
      = (calls.map Call.component).countP (· = .copy w n) := by
  induction calls with
  | nil => rfl
  | cons c calls ih =>
      have hown : c.counts.countP (Count.isCopy w n)
          = [c.component].countP (· = .copy w n) := by
        have hcost : (costCounts c.key c.cost).countP (Count.isCopy w n) = 0 := by
          cases c.cost <;> rfl
        rw [Call.counts, List.countP_append, hcost]
        cases c.component <;> simp [Component.sizeCounts, Count.isCopy]
      rw [List.flatMap_cons, List.countP_append, hown, ih, List.map_cons, ← List.countP_append]
      rfl

end Calls

section Netlist

/-- How often a key is emitted, as a copy or as an instance. -/
def occurrences (outs : List LoweredProcess) (key : String) : Nat :=
  (outs.flatMap LoweredProcess.sites).countP (·.key = key)

/-- The cost in the block of a key. -/
def costIn (outs : List LoweredProcess) (key : String) : Option Cost :=
  ((outs.flatMap LoweredProcess.costBlocks).find? (·.key = key)).bind CostBlock.cost

/-- The sum over all copies and instances of a part of their costs. -/
def totalOver (f : Cost → Int) (outs : List LoweredProcess) : Int :=
  ((outs.flatMap LoweredProcess.sites).map fun inst => ((costIn outs inst.key).map f).getD 0).sum

/-- The statistics agree with what was emitted. -/
structure Statistics.AccountsFor (stats : Statistics) (outs : List LoweredProcess) : Prop where
  area : ∀ key, stats.areaOf key
    = (costIn outs key).map fun cost => (occurrences outs key : Int) * cost.area
  leakage : ∀ key, stats.leakage.lookup key
    = (costIn outs key).map fun cost => (occurrences outs key : Int) * cost.leakage
  copies : ∀ width outputs, stats.copyCount width outputs
    = (outs.flatMap LoweredProcess.copies).countP (·.key = s!"copy<{width},{outputs}>")
  totalArea : ∀ total, stats.totalArea = .ok total ↔
    stats.area.Bounded ∧ total = totalOver Cost.area outs
  totalLeakage : ∀ total, stats.totalLeakage = .ok total ↔
    stats.leakage.Bounded ∧ total = totalOver Cost.leakage outs

variable {s s' : Session} {outs : List LoweredProcess} {calls : List Call}

/-- The cost in the block of a key is that of every call with the key. -/
theorem costIn_of_call (h : Emitted s s' outs calls) (hfresh : s.cache = .empty)
    (hspelled : ∀ call ∈ calls, call.component.Spelled) (call : Call) (hcall : call ∈ calls) :
    costIn outs call.key = call.cost := by
  -- There is a block for the call, and every call of its key has the cost that was found first.
  rcases List.mem_map.mp ((h.mem_blocks hfresh call.key).mpr ⟨call, hcall, rfl⟩) with
    ⟨block, hmem, hkey⟩
  unfold costIn
  cases hfind : (outs.flatMap LoweredProcess.costBlocks).find? (·.key = call.key) with
  | none => exact absurd hkey (by simpa using List.find?_eq_none.mp hfind block hmem)
  | some found =>
      have hfound := List.mem_of_find?_eq_some hfind
      have hfoundKey : found.key = call.key := by simpa using List.find?_some hfind
      rw [h.blocks] at hfound
      rcases List.mem_map.mp (mem_of_mem_firsts CostBlock.key _ _ found hfound) with
        ⟨first, hfirst, rfl⟩
      exact (cost_eq_of_key h.session hspelled first call hfirst hcall hfoundKey).1

/-- A key that no call has is in no block. -/
theorem costIn_of_notMem (h : Emitted s s' outs calls) (hfresh : s.cache = .empty) (key : String)
    (hkey : ∀ call ∈ calls, call.key ≠ key) : costIn outs key = none := by
  have hfind : (outs.flatMap LoweredProcess.costBlocks).find? (·.key = key) = none := by
    refine List.find?_eq_none.mpr fun block hblock => ?_
    have hmem : block.key ∈ (outs.flatMap LoweredProcess.costBlocks).map CostBlock.key :=
      List.mem_map_of_mem hblock
    rcases (h.mem_blocks hfresh block.key).mp hmem with ⟨call, hcall, heq⟩
    rw [← heq, decide_eq_true_eq]
    exact hkey call hcall
  unfold costIn
  rw [hfind]
  rfl

/-- A key is emitted as often as it is called. -/
theorem occurrences_eq (h : Emitted s s' outs calls) (key : String) :
    occurrences outs key = calls.countP (·.key = key) := by
  have hkeys := congrArg (List.countP (· = key)) h.sites
  rw [List.countP_map, List.countP_map] at hkeys
  exact hkeys

/-- Amounts under a key that are all the same. -/
theorem own_amounts (f : Cost → Int) (key : String) (cost : Option Cost) (calls : List Call)
    (hsame : ∀ call ∈ calls, call.key = key → call.cost = cost) :
    ((calls.filterMap fun c => c.cost.map fun cost => (c.key, f cost)).filter
        (·.1 = key)).map Prod.snd
      = cost.elim [] fun cost => List.replicate (calls.countP (·.key = key)) (f cost) := by
  induction calls with
  | nil => cases cost <;> rfl
  | cons c calls ih =>
      rw [List.forall_mem_cons] at hsame
      have htail := ih hsame.2
      by_cases hkey : c.key = key
      -- A call with the key adds the common cost once more.
      · rw [List.countP_cons_of_pos (by simpa using hkey)]
        have hcost := hsame.1 hkey
        cases cost with
        | none =>
            rw [List.filterMap_cons_none (by rw [hcost]; rfl)]
            exact htail
        | some cost =>
            rw [List.filterMap_cons_some (b := (c.key, f cost)) (by rw [hcost]; rfl),
              List.filter_cons_of_pos (by simpa using hkey), List.map_cons, htail]
            rfl
      · rw [List.countP_cons_of_neg (by simpa using hkey)]
        cases hcost : c.cost with
        | none =>
            rw [List.filterMap_cons_none (by rw [hcost]; rfl)]
            exact htail
        | some own =>
            rw [List.filterMap_cons_some (b := (c.key, f own)) (by rw [hcost]; rfl),
              List.filter_cons_of_neg (by simpa using hkey)]
            exact htail

/-- The amounts of the calls with a key add up to a product. -/
theorem sumUnder_calls (h : Emitted s s' outs calls) (hfresh : s.cache = .empty)
    (hspelled : ∀ call ∈ calls, call.component.Spelled) (f : Cost → Int) (key : String) :
    sumUnder key (calls.filterMap fun c => c.cost.map fun cost => (c.key, f cost))
      = (costIn outs key).map fun cost => (occurrences outs key : Int) * f cost := by
  have hsame : ∀ call ∈ calls, call.key = key → call.cost = costIn outs key := by
    rintro call hcall rfl
    exact (costIn_of_call h hfresh hspelled call hcall).symm
  unfold sumUnder
  rw [own_amounts f key _ calls hsame, occurrences_eq h]
  cases hcost : costIn outs key with
  | none => rfl
  | some cost =>
      -- A key whose block has a cost is that of a call.
      have hpos : calls.countP (·.key = key) ≠ 0 := by
        intro hzero
        have hnone := costIn_of_notMem h hfresh key fun call hcall =>
          by simpa using List.countP_eq_zero.mp hzero call hcall
        rw [hcost] at hnone
        cases hnone
      simp [hpos]

/-- All amounts add up to the sum over what is emitted. -/
theorem sum_calls (h : Emitted s s' outs calls) (hfresh : s.cache = .empty)
    (hspelled : ∀ call ∈ calls, call.component.Spelled) (f : Cost → Int) :
    ((calls.filterMap fun c => c.cost.map fun cost => (c.key, f cost)).map Prod.snd).sum
      = totalOver f outs := by
  have hcalls : ∀ cs : List Call,
      ((cs.filterMap fun c => c.cost.map fun cost => (c.key, f cost)).map Prod.snd).sum
        = (cs.map fun c => (c.cost.map f).getD 0).sum := by
    intro cs
    induction cs with
    | nil => rfl
    | cons c cs ih =>
        rw [List.map_cons, List.sum_cons, ← ih]
        cases hcost : c.cost with
        | none => rw [List.filterMap_cons_none (by rw [hcost]; rfl)]; simp
        | some cost =>
            rw [List.filterMap_cons_some (b := (c.key, f cost)) (by rw [hcost]; rfl)]
            simp
  -- A call without a cost counts as zero, and so does its block.
  have hblocks : (calls.map fun c => (c.cost.map f).getD 0)
      = (calls.map Call.key).map fun key => ((costIn outs key).map f).getD 0 := by
    rw [List.map_map]
    refine List.map_congr_left fun call hcall => ?_
    rw [← costIn_of_call h hfresh hspelled call hcall]
    rfl
  unfold totalOver
  rw [hcalls, hblocks, ← h.sites, List.map_map]
  rfl

/-- Copies of different sizes have different keys. -/
theorem copy_key_inj (w n : Nat) (w' n' : Nat)
    (h : (Component.copy w n).key = (Component.copy w' n').key) : w = w' ∧ n = n' := by
  unfold Component.key at h
  rw [String.append_left_inj, Component.template, Component.template, String.append_right_inj] at h
  have hparams := params_inj w w' [n] [n'] h
  simpa using hparams

/-- The elements of a process make no copies. -/
theorem copy_notMem_components (p : Process) (pipeline : Bool) (T : Bodies)
    (el : Element ChannelId Expr) (w n : Nat) : .copy w n ∉ el.components p pipeline T := by
  intro hmem
  unfold Element.components at hmem
  cases hmembers : el.members? with
  | some pair =>
      rw [hmembers] at hmem
      rcases List.mem_append.mp hmem with hmem | hbuffer
      · rcases List.mem_append.mp hmem with hsource | hunit
        · rcases List.mem_filterMap.mp hsource with ⟨f, _, hf⟩
          rcases Option.bind_eq_some_iff.mp hf with ⟨value, _, hf⟩
          rcases Option.bind_eq_some_iff.mp hf with ⟨out, _, hf⟩
          cases hf
        · rcases List.mem_map.mp hunit with ⟨fu, _, hfu⟩
          cases hfu
      · rcases List.mem_filterMap.mp hbuffer with ⟨f, _, hf⟩
        unfold Func.bufferComponent? at hf
        split at hf
        · cases hf
        · rcases Option.bind_eq_some_iff.mp hf with ⟨depth, _, hf⟩
          rcases Option.bind_eq_some_iff.mp hf with ⟨out, _, hf⟩
          cases hf
  | none =>
      rw [hmembers] at hmem
      cases el with
      | split guard input outputs =>
          rcases List.mem_cons.mp hmem with hmem | hmem
          · cases hmem
          · rcases List.mem_map.mp hmem with ⟨out, _, hout⟩
            cases hout
      | func f => cases hmembers
      | cluster fs => cases hmembers
      | _ => cases List.mem_singleton.mp hmem

/-- The copies that are emitted are the copies of the process. -/
theorem copies_keys (p : Process) (s s' : Session) (out : LoweredProcess)
    (h : lowerProcess p s = .ok out s') :
    out.copies.map Instance.key = p.copies.map Component.key := by
  have hkeys : ∀ (qs : List Placement) (insts : List Instance),
      List.Forall₂ Placement.IsFor qs insts →
      insts.map Instance.key = qs.map fun q => q.component.key := by
    intro qs insts hall
    induction hall with
    | nil => rfl
    | cons hfor _ ih => rw [List.map_cons, List.map_cons, hfor.1, ih]
  rw [hkeys _ _ (lowerProcess_placed p s s' out h _ (Bodies.Keeps.refl _)).copies]
  unfold Process.copyPlacements Process.copies Process.copied
  rw [List.map_map, List.map_map]
  rfl

/-- As many copies of a size are emitted as there are among the components. -/
theorem count_copies (ps : Program) (s s' : Session) (outs : List LoweredProcess)
    (h : lowerAll ps s = .ok outs s') (pipeline : Bool) (T : Bodies) (w n : Nat) :
    (outs.flatMap LoweredProcess.copies).countP (·.key = (Component.copy w n).key)
      = (ps.flatMap fun p => p.components pipeline T).countP (· = .copy w n) := by
  induction ps generalizing s outs with
  | nil =>
      rcases pure_ok_iff.mp h with ⟨rfl, _⟩
      rfl
  | cons p ps ih =>
      rcases bind_ok_iff.mp h with ⟨out, t, hp, h₁⟩
      rcases bind_ok_iff.mp h₁ with ⟨rest, t', hrest, h₂⟩
      rcases pure_ok_iff.mp h₂ with ⟨rfl, rfl⟩
      -- Every copy of a process is emitted under the key of its size.
      have hown : out.copies.countP (·.key = (Component.copy w n).key)
          = p.copies.countP (· = .copy w n) := by
        have hkeys := congrArg (List.countP (· = (Component.copy w n).key))
          (copies_keys p s t out hp)
        rw [List.countP_map, List.countP_map] at hkeys
        refine hkeys.trans (List.countP_congr fun c hc => ?_)
        rcases List.mem_map.mp hc with ⟨id, _, rfl⟩
        simp only [Function.comp, decide_eq_true_eq, Component.copy.injEq]
        refine ⟨copy_key_inj _ _ w n, ?_⟩
        rintro ⟨hw, hn⟩
        rw [hw, hn]
      -- Nothing else among the components is a copy.
      have helements : (p.elements.flatMap (Element.components p pipeline T)).countP
          (· = .copy w n) = 0 := by
        refine List.countP_eq_zero.mpr fun c hc => ?_
        rcases List.mem_flatMap.mp hc with ⟨el, _, hel⟩
        rw [decide_eq_true_eq]
        rintro rfl
        exact copy_notMem_components p pipeline T el w n hel
      rw [List.flatMap_cons, List.countP_append, List.flatMap_cons, List.countP_append,
        ih t rest hrest, hown, Process.components, List.countP_append, helements, Nat.add_zero]

/-- Statistics that hold what the calls of a run count agree with what the run
    emitted. -/
theorem accountsFor_of_holds (ps : Program) (hfresh : s.cache = .empty)
    (hrun : lowerAll ps s = .ok outs s') (h : Emitted s s' outs calls)
    (hcalls : calls.map Call.component
      = ps.flatMap fun p => p.components s.pipeline s'.cache.bodies)
    (stats : Statistics) (hstats : stats.Holds (calls.flatMap Call.counts)) :
    stats.AccountsFor outs := by
  have hspelled := spelled_of_calls ps s.pipeline s'.cache.bodies calls hcalls
  have harea := hstats.area
  have hleakage := hstats.leakage
  rw [amounts_calls] at harea hleakage
  refine ⟨fun key => ?_, fun key => ?_, fun w n => ?_, fun total => ?_, fun total => ?_⟩
  · exact (harea.keys key).trans (sumUnder_calls h hfresh hspelled Cost.area key)
  · exact (hleakage.keys key).trans (sumUnder_calls h hfresh hspelled Cost.leakage key)
  · rw [hstats.copies, copies_calls, hcalls, ← count_copies ps s s' outs hrun, Component.key,
      Component.params, Component.key_two]
    rfl
  · rw [Statistics.totalArea, Tally.total_ok_iff, harea.sum, sum_calls h hfresh hspelled]
  · rw [Statistics.totalLeakage, Tally.total_ok_iff, hleakage.sum, sum_calls h hfresh hspelled]

end Netlist

/-- The statistics of a run account for its netlist. In a run with a fresh session
    every copy and instance has one cost block. The area of a key is the area in
    its block, as many times as the key was emitted, and so is its leakage; of a
    key without a cost there is no record. Copies are counted by their sizes, and
    the totals are the sums over everything that was emitted, unless a partial sum
    leaves the signed 64-bit range. All this stays the same if what was counted is
    counted in any other order, as long as no sum leaves its range. -/
theorem statistics_account_for_netlist (ps : Program) (s s' : Session)
    (outs : List LoweredProcess) (hcache : s.cache = .empty) (hstats : s.stats = .empty)
    (h : lowerAll ps s = .ok outs s') :
    s'.stats.AccountsFor outs ∧
      (∀ inst ∈ outs.flatMap LoweredProcess.sites, ∃! block,
        block ∈ outs.flatMap LoweredProcess.costBlocks ∧ block.key = inst.key) ∧
      ∃ calls, Emitted s s' outs calls ∧
        calls.map Call.component = (ps.flatMap fun p => p.components s.pipeline s'.cache.bodies) ∧
        Statistics.empty.countAll (calls.flatMap Call.counts) = .ok s'.stats ∧
        ∀ order, order.Perm (calls.flatMap Call.counts) →
          ∀ stats, Statistics.empty.countAll order = .ok stats → stats.AccountsFor outs := by
  rcases lowerAll_emits ps s s' outs h with ⟨calls, hemitted, hcomponents⟩
  have hcalls := hcomponents s'.cache.bodies (Bodies.Keeps.refl _)
  -- A run with a new session counts its calls in order.
  have hcount : Statistics.empty.countAll (calls.flatMap Call.counts) = .ok s'.stats := by
    rw [← countAll_calls, ← hstats]
    exact hemitted.session.stats
  have hany : ∀ order, order.Perm (calls.flatMap Call.counts) →
      ∀ stats, Statistics.empty.countAll order = .ok stats → stats.AccountsFor outs := by
    intro order hperm stats hrun
    refine accountsFor_of_holds ps hcache h hemitted hcalls stats ?_
    exact (Statistics.holds_countAll Statistics.holds_empty hrun).perm hperm
  refine ⟨hany _ (List.Perm.refl _) _ hcount, fun inst hinst => ?_, calls, hemitted, hcalls,
    hcount, hany⟩
  have hkey : inst.key ∈ (outs.flatMap LoweredProcess.costBlocks).map CostBlock.key := by
    rw [hemitted.mem_blocks hcache, ← List.mem_map, ← hemitted.sites]
    exact List.mem_map_of_mem hinst
  rcases List.mem_map.mp hkey with ⟨block, hblock, heq⟩
  refine ⟨block, ⟨hblock, heq⟩, fun other hother => ?_⟩
  -- Cost blocks are filtered by their keys, so there is no second one.
  have hnodup : ((outs.flatMap LoweredProcess.costBlocks).map CostBlock.key).Nodup := by
    rw [hemitted.blocks]
    exact nodup_firsts CostBlock.key _ _
  exact List.inj_on_of_nodup_map hnodup hother.1 hblock (hother.2.trans heq.symm)

/-- A process with a copy, a unit without a cost and a sink, lowered twice: the
    second time nothing new is written, and everything is counted again. -/
theorem second_process_is_counted :
    let p : Process := ⟨"p", ⟨[⟨"a", .int 8, .port .input, 0⟩, ⟨"x", .int 8, .internal, 1⟩]⟩,
      [.func ⟨.binary .add (.var 0) (.const 1), none, some 1⟩, .sink 0, .sink 1]⟩
    let s : Session := { Session.start false .empty with
      metrics := [("copy_8_2_", ⟨1, 2, 3, 4⟩), ("sink_8_", ⟨5, 6, 7, 8⟩)] }
    ∃ outs s', lowerAll [p, p] s = .ok outs s' ∧ occurrences outs "sink<8>" = 4 ∧
      s'.stats.areaOf "sink<8>" = some 32 ∧ s'.stats.areaOf "func_0addc1_8<8,8,8>" = none ∧
      s'.stats.copyCount 8 2 = 2 ∧ ∀ total, s'.stats.totalArea = .ok total → total = 40 := by
  intro p s
  have hrun : (match lowerAll [p, p] s with
      | .ok outs _ => some (occurrences outs "sink<8>", (costIn outs "sink<8>").map Cost.area,
          costIn outs "func_0addc1_8<8,8,8>",
          (outs.flatMap LoweredProcess.copies).countP (·.key = "copy<8,2>"),
          totalOver Cost.area outs)
      | .error _ _ => none) = some (4, some 8, none, 2, 40) := by decide +kernel
  split at hrun
  · rename_i outs s' hlower
    simp only [Option.some.injEq, Prod.mk.injEq] at hrun
    rcases hrun with ⟨hoccurs, hsink, hfunc, hcopies, htotal⟩
    rcases statistics_account_for_netlist [p, p] s s' outs rfl rfl hlower with ⟨haccount, _⟩
    refine ⟨outs, s', hlower, hoccurs, ?_, ?_, ?_, fun total h => ?_⟩
    · rcases Option.map_eq_some_iff.mp hsink with ⟨cost, hcost, harea⟩
      rw [haccount.area, hcost, Option.map_some, hoccurs, harea]
      rfl
    · rw [haccount.area, hfunc, Option.map_none]
    · exact (haccount.copies 8 2).trans hcopies
    · exact ((haccount.totalArea total).mp h).2.trans htotal
  · cases hrun

end DataflowCircuit
