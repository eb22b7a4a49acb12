import DataflowCircuit.Proofs.Basic.Traversal
import DataflowCircuit.Proofs.Lowering.Processes
import Mathlib.Data.List.Basic
import Mathlib.Data.List.Forall2
import Mathlib.Data.List.Induction

/-!
# Fan-Out

A channel delivers every token once, so a channel that is read several times
needs a copy, and every reader takes an output of its own. Nothing in the
lowering keeps the pairs of readers and outputs. Reads are counted in a first
pass, and a second pass hands out outputs in the order in which it asks, and
the two passes walk over the process separately.

This file says what comes out. The reads of a process are one list, the reads
of its elements in order, and the whole wiring is a function of that list:
the read at a position is served by the channel itself if the channel occurs
once, and by the output of its copy that is numbered by the earlier
occurrences otherwise. `servingWires` is that function. It mentions neither
counts nor cursors.

The proof has two invariants. `Counted` ties the table of the first pass to
the reads seen so far, and `Tracks` ties the cursors of the second pass to the
reads served so far. Each is kept by one step, and a whole pass is a run of
such steps.

## Main definitions

* `Process.reads`, `Process.copied`: All reads of a process in order, and the
  channels that are read more than once.
* `servingWire`, `servingWires`: The wire that serves a read.
* `IsCopyOf`: The copy of a channel.
* `Wired`: Elements, the wires that serve them, and their instances.
* `Counted`, `CopyPlan.Tracks`: The invariants of the two passes.

## Theorems

* `collect_counted`: Counting a process counts its reads.
* `plan_supplies`: The plan has one supply for each counted channel.
* `next_wire`, `serves_wires`: Reads are served by their serving wires.
* `Lowered.wires`, `Lowered.wired`, `Lowered.copied`: The wiring of one run.
* `occurrence_unique`: A channel occurs once with every rank.
* `reads_are_served`: The wiring of a lowered process.
-/

namespace DataflowCircuit

/-- The channels that the elements of a process read, in order. -/
def Process.reads (p : Process) : List ChannelId :=
  p.elements.flatMap Element.reads

/-- The channels that have a copy, in order of first reads. -/
def Process.copied (p : Process) : List ChannelId :=
  (p.reads.foldl addRead []).filter fun id => 2 ≤ p.reads.count id

/-- The instance name of the copy of a channel. -/
def copyName (s : Scope) (id : ChannelId) : String :=
  normalizeChannel (s.nameOf id) ++ "copy"

/-- The name of an output of the copy of a channel. -/
def copyOutput (s : Scope) (id : ChannelId) (i : Nat) : String :=
  copyName s id ++ ".out[" ++ toString i ++ "]"

/-- The wire that serves occurrence number `i` of a channel among the reads. -/
def servingWire (s : Scope) (reads : List ChannelId) (id : ChannelId) (i : Nat) : String :=
  if 2 ≤ reads.count id then copyOutput s id i else s.nameOf id

/-- The wires that serve reads, position by position. The number of an
    occurrence is the number of occurrences before it. -/
def servingWires (s : Scope) (reads : List ChannelId) : List String :=
  reads.mapIdx fun j id => servingWire s reads id ((reads.take j).count id)

/-- The copy of a channel with as many outputs as the channel has reads. -/
def IsCopyOf (s : Scope) (reads : List ChannelId) (id : ChannelId) (inst : Instance) : Prop :=
  ∃ width, s.width? id = some width ∧
    inst = ⟨s!"copy<{width},{reads.count id}>", copyName s id, [s.nameOf id]⟩

/-- Elements in order, the wires that serve their reads, and the instances
    written for them. -/
inductive Wired (s : Scope) :
    List (Element ChannelId Expr) → List String → List Instance → Prop where
  | nil : Wired s [] [] []
  | cons (el : Element ChannelId Expr) (els : List (Element ChannelId Expr))
      (ws ws' : List String) (insts insts' : List Instance)
      (hlen : ws.length = el.reads.length) (hfed : Fed s el ws insts)
      (hrest : Wired s els ws' insts') : Wired s (el :: els) (ws ++ ws') (insts ++ insts')

section Counting

/-- The counts after the reads `seen`: one entry for each channel, in order of
    first reads. -/
structure Counted (seen : List ChannelId) (uses : UseCounts) : Prop where
  keys : uses.map Prod.fst = seen.foldl addRead []
  reads : ∀ id, uses.reads id = seen.count id

/-- Recording a read adds its channel to the keys unless it is there. -/
theorem record_keys (uses : UseCounts) (id : ChannelId) :
    (uses.record id).map Prod.fst = addRead (uses.map Prod.fst) id := by
  induction uses with
  | nil => rfl
  | cons entry rest ih =>
      rcases entry with ⟨c, n⟩
      unfold UseCounts.record addRead
      by_cases hc : c = id
      · rw [if_pos hc, if_pos (by rw [List.map_cons, hc]; exact List.mem_cons_self)]
        rfl
      · rw [if_neg hc, List.map_cons, ih, List.map_cons]
        unfold addRead
        -- The first entry is for another channel, so it makes no difference.
        have hmem : id ∈ c :: rest.map Prod.fst ↔ id ∈ rest.map Prod.fst := by
          rw [List.mem_cons]
          exact or_iff_right (Ne.symm hc)
        by_cases hin : id ∈ rest.map Prod.fst
        · rw [if_pos hin, if_pos (hmem.mpr hin)]
        · rw [if_neg hin, if_neg (fun h => hin (hmem.mp h))]
          rfl

/-- Recording a read keeps the count in step. -/
theorem counted_record (seen : List ChannelId) (uses : UseCounts) (id : ChannelId)
    (h : Counted seen uses) : Counted (seen ++ [id]) (uses.record id) := by
  refine ⟨?_, fun c => ?_⟩
  · rw [record_keys, h.keys, List.foldl_append]
    rfl
  · rw [UseCounts.reads_record, h.reads, List.count_append, List.count_singleton]
    by_cases hc : c = id
    · rw [if_pos hc, if_pos (beq_iff_eq.mpr hc.symm)]
    · rw [if_neg hc, if_neg (fun hb => hc (beq_iff_eq.mp hb).symm)]

/-- So does recording several. -/
theorem counted_recordAll (ids seen : List ChannelId) (uses : UseCounts) (h : Counted seen uses) :
    Counted (seen ++ ids) (ids.foldl (fun uses id => uses.record id) uses) := by
  induction ids generalizing seen uses with
  | nil =>
      rw [List.append_nil]
      exact h
  | cons id ids ih =>
      have hrest := ih (seen ++ [id]) (uses.record id) (counted_record seen uses id h)
      rw [List.append_assoc] at hrest
      exact hrest

/-- Counting a process counts its reads. -/
theorem collect_counted (p : Process) (uses : UseCounts) (h : UseCounts.collect p = .ok uses) :
    Counted p.reads uses := by
  -- An element is counted by recording its reads in order.
  have hfrom : ∀ (els : List (Element ChannelId Expr)) (seen : List ChannelId)
      (uses uses' : UseCounts), Counted seen uses →
      UseCounts.collectFrom p.scope uses els = .ok uses' →
      Counted (seen ++ els.flatMap Element.reads) uses' := by
    intro els
    induction els with
    | nil =>
        intro seen uses uses' hseen hcollect
        rw [UseCounts.collectFrom, Except.ok.injEq] at hcollect
        rw [← hcollect, List.flatMap_nil, List.append_nil]
        exact hseen
    | cons el els ih =>
        intro seen uses uses' hseen hcollect
        rcases except_bind_ok_iff.mp hcollect with ⟨u, _, hrest⟩
        have hstep := ih _ _ uses' (counted_recordAll el.reads seen uses hseen) hrest
        rw [List.append_assoc] at hstep
        exact hstep
  exact hfrom p.elements [] [] uses ⟨rfl, fun _ => rfl⟩ h

/-- The keys of a count are in order of first occurrence and distinct. -/
theorem foldl_addRead_pairwise (seen : List ChannelId) :
    (∀ id, id ∈ seen.foldl addRead [] ↔ id ∈ seen) ∧
      (seen.foldl addRead []).Pairwise fun a b => seen.idxOf a < seen.idxOf b := by
  -- Reads are seen from the left, so the induction takes them off at the right.
  induction seen using List.reverseRecOn with
  | nil => exact ⟨fun _ => Iff.rfl, List.Pairwise.nil⟩
  | append_singleton seen id ih =>
      rcases ih with ⟨hmem, hpair⟩
      rw [List.foldl_append, List.foldl_cons, List.foldl_nil, addRead]
      -- A channel that was seen before is first seen where it was.
      have hold : (seen.foldl addRead []).Pairwise
          fun a b => (seen ++ [id]).idxOf a < (seen ++ [id]).idxOf b := by
        refine hpair.imp_of_mem fun {a b} ha hb hlt => ?_
        rw [List.idxOf_append_of_mem ((hmem a).mp ha), List.idxOf_append_of_mem ((hmem b).mp hb)]
        exact hlt
      by_cases hid : id ∈ seen.foldl addRead []
      · rw [if_pos hid]
        refine ⟨fun c => ?_, hold⟩
        rw [hmem c, List.mem_append, List.mem_singleton]
        refine ⟨Or.inl, fun h => ?_⟩
        rcases h with h | rfl
        · exact h
        · exact (hmem c).mp hid
      · rw [if_neg hid]
        refine ⟨fun c => ?_, List.pairwise_append.mpr ⟨hold, List.pairwise_singleton _ _, ?_⟩⟩
        · rw [List.mem_append, hmem c, List.mem_append]
        · intro a ha b hb
          rw [List.mem_singleton.mp hb, List.idxOf_append_of_mem ((hmem a).mp ha),
            List.idxOf_append_of_notMem fun h => hid ((hmem id).mpr h)]
          -- The new channel is first seen at the end, behind all the others.
          have hlt := List.idxOf_lt_length_iff.mpr ((hmem a).mp ha)
          omega

/-- The keys of a count are distinct. -/
theorem foldl_addRead_nodup (seen : List ChannelId) : (seen.foldl addRead []).Nodup :=
  (foldl_addRead_pairwise seen).2.imp fun hlt heq => by
    rw [heq] at hlt
    exact absurd hlt (Nat.lt_irrefl _)

/-- An entry of a count is the number of its reads. -/
theorem Counted.entries {seen : List ChannelId} {uses : UseCounts} (h : Counted seen uses) :
    ∀ entry ∈ uses, entry.2 = seen.count entry.1 := by
  have hnodup : (uses.map Prod.fst).Nodup := by
    rw [h.keys]
    exact foldl_addRead_nodup seen
  intro entry hentry
  -- Looking up the channel of an entry finds that entry, as no other has the channel.
  rw [← h.reads, UseCounts.reads, Lowering.lookup_of_mem uses entry hnodup hentry,
    Option.getD_some]

end Counting

section Planning

/-- The supply that is planned for a counted channel. -/
def IsSupplyOf (s : Scope) (entry : ChannelId × Nat) (sup : Supply) : Prop :=
  ∃ w, s.width? entry.1 = some w ∧ sup = ⟨entry.1, s.nameOf entry.1, w, entry.2, 0⟩

/-- A plan has one supply for each counted channel, in order. -/
theorem plan_supplies (s : Scope) (uses : UseCounts) (plan : CopyPlan)
    (h : CopyPlan.plan s uses = .ok plan) : List.Forall₂ (IsSupplyOf s) uses plan.supplies := by
  rcases except_bind_ok_iff.mp h with ⟨supplies, hsupplies, hplan⟩
  rw [← except_pure_ok_iff.mp hplan]
  refine (traverseList_ok _ uses supplies hsupplies).imp ?_
  rintro ⟨id, n⟩ sup hsup
  rcases except_bind_ok_iff.mp hsup with ⟨w, hw, hpure⟩
  exact ⟨w, (width_ok_iff s id w).mp hw, (except_pure_ok_iff.mp hpure).symm⟩

/-- The copies of a plan, with the counted channels they are for. -/
theorem copies_of_supplies (s : Scope) (reads : List ChannelId) (uses : UseCounts)
    (sups : List Supply) (hcount : ∀ entry ∈ uses, entry.2 = reads.count entry.1)
    (h : List.Forall₂ (IsSupplyOf s) uses sups) :
    List.Forall₂ (IsCopyOf s reads) ((uses.map Prod.fst).filter fun id => 2 ≤ reads.count id)
      ((sups.filter Supply.isCopied).map Supply.copy) := by
  induction h with
  | nil => exact List.Forall₂.nil
  | @cons entry sup uses sups hsup hrest ih =>
      rcases hsup with ⟨w, hw, rfl⟩
      have hhead := hcount entry List.mem_cons_self
      have htail := ih fun e he => hcount e (List.mem_cons_of_mem _ he)
      rw [List.map_cons]
      -- A channel is kept on both sides exactly if it is read twice.
      by_cases htwo : 2 ≤ reads.count entry.1
      · have hcopied : Supply.isCopied ⟨entry.1, s.nameOf entry.1, w, entry.2, 0⟩ = true := by
          rw [hhead]
          exact decide_eq_true htwo
        rw [List.filter_cons_of_pos (by simpa using htwo), List.filter_cons_of_pos hcopied,
          List.map_cons]
        refine List.Forall₂.cons ⟨w, hw, ?_⟩ htail
        rw [← hhead]
        rfl
      · have hcopied : ¬ Supply.isCopied ⟨entry.1, s.nameOf entry.1, w, entry.2, 0⟩ = true := by
          rw [hhead]
          exact fun hc => htwo (of_decide_eq_true hc)
        rw [List.filter_cons_of_neg (by simpa using htwo),
          List.filter_cons_of_neg hcopied]
        exact htail

end Planning

section Serving

/-- A plan for `reads` of which `served` have been served. -/
def CopyPlan.Tracks (s : Scope) (reads served : List ChannelId) (p : CopyPlan) : Prop :=
  ∀ id sup, p.supply? id = some sup →
    sup.name = s.nameOf id ∧ sup.reads = reads.count id ∧ sup.served = served.count id

/-- A supply that is found is in the plan, under the channel that was looked
    for. -/
theorem supply?_mem (p : CopyPlan) (id : ChannelId) (sup : Supply)
    (h : p.supply? id = some sup) : sup ∈ p.supplies ∧ sup.channel = id := by
  have hpred := List.find?_some (p := fun sup : Supply => decide (sup.channel = id)) h
  exact ⟨List.mem_of_find?_eq_some h, of_decide_eq_true hpred⟩

/-- Nothing has been served by a fresh plan. -/
theorem plan_tracks (s : Scope) (reads : List ChannelId) (uses : UseCounts) (p : CopyPlan)
    (hcount : ∀ entry ∈ uses, entry.2 = reads.count entry.1)
    (h : List.Forall₂ (IsSupplyOf s) uses p.supplies) : p.Tracks s reads [] := by
  intro id sup hfind
  rcases supply?_mem p id sup hfind with ⟨hmem, hid⟩
  rcases List.forall₂_iff_get.mp h with ⟨hlen, hget⟩
  -- The supply stands at the position of its entry.
  rcases List.mem_iff_get.mp hmem with ⟨i, hi⟩
  have hlt : i.val < uses.length := by
    rw [hlen]
    exact i.isLt
  rcases hget i.val hlt i.isLt with ⟨w, _, hsup⟩
  have hentry := hcount (uses.get ⟨i.val, hlt⟩) (List.get_mem _ _)
  rw [hi] at hsup
  rw [hsup] at hid
  have hid' : (uses.get ⟨i.val, hlt⟩).1 = id := hid
  rw [hsup, ← hid']
  exact ⟨rfl, hentry, rfl⟩

/-- Serving a read moves one cursor. -/
theorem supply?_serve (p : CopyPlan) (id c : ChannelId) (sup : Supply)
    (h : (p.serve id).supply? c = some sup) :
    ∃ old, p.supply? c = some old ∧ sup.name = old.name ∧ sup.reads = old.reads ∧
      sup.served = old.served + if c = id then 1 else 0 := by
  unfold CopyPlan.serve CopyPlan.supply? at h
  rw [List.find?_map] at h
  rcases Option.map_eq_some_iff.mp h with ⟨old, hold, hsup⟩
  -- Serving changes no channel, so the same supply is found.
  have hkey : ((fun sup : Supply => decide (sup.channel = c)) ∘ fun sup : Supply =>
      if sup.channel = id then { sup with served := sup.served + 1 } else sup)
        = fun sup : Supply => decide (sup.channel = c) := by
    funext x
    by_cases hx : x.channel = id
    · simp only [Function.comp_apply, if_pos hx]
    · simp only [Function.comp_apply, if_neg hx]
  rw [hkey] at hold
  rcases supply?_mem p c old hold with ⟨_, hc⟩
  refine ⟨old, hold, ?_⟩
  rw [← hsup, ← hc]
  by_cases hid : old.channel = id
  · simp only [if_pos hid, and_self]
  · simp only [if_neg hid, Nat.add_zero, and_self]

/-- One read is served by its serving wire. -/
theorem next_wire (s : Scope) (reads served : List ChannelId) (p q : CopyPlan) (id : ChannelId)
    (wire : String) (ht : p.Tracks s reads served) (h : p.next id = .ok (wire, q)) :
    wire = servingWire s reads id (served.count id) ∧ q.Tracks s reads (served ++ [id]) := by
  unfold CopyPlan.next at h
  cases hsup : p.supply? id with
  | none =>
      rw [hsup] at h
      cases h
  | some sup =>
      rw [hsup] at h
      rcases ht id sup hsup with ⟨hname, hreads, hserved⟩
      by_cases hlt : sup.served < sup.reads
      · simp only [if_pos hlt, Except.ok.injEq, Prod.mk.injEq] at h
        rcases h with ⟨hwire, hq⟩
        refine ⟨?_, fun c sup' hsup' => ?_⟩
        · rw [← hwire, Supply.wire, Supply.isCopied, servingWire, hreads, hserved]
          -- The supply is copied exactly if the channel is read twice.
          by_cases htwo : 2 ≤ reads.count id
          · rw [if_pos (decide_eq_true htwo), if_pos htwo, Supply.port, Supply.instanceName, hname]
            rfl
          · rw [if_neg (fun hc => htwo (of_decide_eq_true hc)), if_neg htwo, hname]
        · rw [← hq] at hsup'
          -- The cursor that was moved is that of the channel that was served.
          rcases supply?_serve p id c sup' hsup' with ⟨old, hold, hn, hr, hs⟩
          rcases ht c old hold with ⟨hname', hreads', hserved'⟩
          refine ⟨hn.trans hname', hr.trans hreads', ?_⟩
          rw [hs, hserved', List.count_append, List.count_singleton]
          by_cases hc : c = id
          · rw [if_pos hc, if_pos (beq_iff_eq.mpr hc.symm)]
          · rw [if_neg hc, if_neg (fun hb => hc (beq_iff_eq.mp hb).symm)]
      · simp only [if_neg hlt, reduceCtorEq] at h

/-- Reads that are served one after another are served by their serving
    wires. -/
theorem serves_wires (s : Scope) (reads : List ChannelId) (served : List (ChannelId × String))
    (before : List ChannelId) (p q : CopyPlan) (ht : p.Tracks s reads before)
    (h : p.Serves served q) :
    served.map Prod.snd = (served.map Prod.fst).mapIdx fun j id =>
      servingWire s reads id ((before ++ (served.map Prod.fst).take j).count id) := by
  induction served generalizing before p with
  | nil => rfl
  | cons pair served ih =>
      rcases pair with ⟨id, wire⟩
      rcases h with ⟨p₁, hnext, hrest⟩
      rcases next_wire s reads before p p₁ id wire ht hnext with ⟨hwire, ht₁⟩
      -- The rest is served with one read more behind it.
      have htail := ih (before ++ [id]) p₁ ht₁ hrest
      rw [List.map_cons, List.map_cons, List.mapIdx_cons, htail, List.cons.injEq]
      refine ⟨?_, ?_⟩
      · rw [List.take_zero, List.append_nil]
        exact hwire
      · simp only [List.take_succ_cons, List.append_assoc, List.singleton_append]

end Serving

section Wiring

/-- The trace of elements wires their instances. -/
theorem traced_wired {s : Scope} {observed : ChannelId → Bool} {els : List (Element ChannelId Expr)}
    {τ : Trace} (T : Bodies) (h : Lowering.Traced s observed els τ) :
    Wired s els (τ.served.map Prod.snd) (τ.sites.map (Site.toInstance T)) := by
  induction h with
  | nil => exact Wired.nil
  | cons el els τ τ' hel hrest ih =>
      -- As many wires were served as the element has reads.
      have hlen : (τ.served.map Prod.snd).length = el.reads.length := by
        rw [← hel.served, List.length_map, List.length_map]
      rw [Trace.served_append, Trace.sites_append, List.map_append, List.map_append]
      exact Wired.cons el els _ _ _ _ hlen (hel.fed T) ih

section Runs

variable {p : Process} {s s' : Session} {out : LoweredProcess} {uses : UseCounts}
  {plan : CopyPlan} {τ : Trace} (h : Lowered p s s' out uses plan τ)

include h

/-- The reads of a process are served by their serving wires. -/
theorem Lowered.wires : τ.served.map Prod.snd = servingWires p.scope p.reads := by
  have htracks := plan_tracks p.scope p.reads uses plan (collect_counted p uses h.counted).entries
    (plan_supplies p.scope uses plan h.planned)
  rcases h.served with ⟨plan', hserves⟩
  have hwires := serves_wires p.scope p.reads τ.served [] plan plan' htracks hserves
  rw [h.traced.served] at hwires
  exact hwires

/-- They feed the instances of its elements. -/
theorem Lowered.wired :
    Wired p.scope p.elements (servingWires p.scope p.reads) out.instances := by
  rw [← h.wires, h.instances s'.cache.bodies (Bodies.Keeps.refl _)]
  exact traced_wired _ h.traced

/-- The channels that are read more than once have a copy. -/
theorem Lowered.copied : List.Forall₂ (IsCopyOf p.scope p.reads) p.copied out.copies := by
  have hcounted := collect_counted p uses h.counted
  have hcopies := copies_of_supplies p.scope p.reads uses plan.supplies hcounted.entries
    (plan_supplies p.scope uses plan h.planned)
  rw [hcounted.keys] at hcopies
  rw [h.copies]
  exact hcopies

end Runs

/-- A channel that occurs often enough occurs exactly once with a given number
    of occurrences before it. -/
theorem occurrence_unique (reads : List ChannelId) (id : ChannelId) (i : Nat)
    (h : i < reads.count id) :
    ∃! j : Nat, reads[j]? = some id ∧ (reads.take j).count id = i := by
  induction reads generalizing i with
  | nil => exact absurd h (Nat.not_lt_zero i)
  | cons c reads ih =>
      -- The first read counts if it is of the channel, and then the others are one occurrence
      -- further.
      by_cases hc : c = id
      · rw [hc, List.count_cons_self] at h
        rw [hc]
        cases i with
        | zero =>
            refine ⟨0, ⟨rfl, rfl⟩, ?_⟩
            rintro j ⟨_, hj⟩
            cases j with
            | zero => rfl
            | succ j =>
                rw [List.take_succ_cons, List.count_cons_self] at hj
                omega
        | succ i =>
            rcases ih i (by omega) with ⟨j, ⟨hget, hcount⟩, huniq⟩
            refine ⟨j + 1, ⟨hget, ?_⟩, ?_⟩
            · rw [List.take_succ_cons, List.count_cons_self, hcount]
            · rintro k ⟨hk, hcountk⟩
              cases k with
              | zero =>
                  rw [List.take_zero, List.count_nil] at hcountk
                  omega
              | succ k =>
                  rw [List.take_succ_cons, List.count_cons_self] at hcountk
                  rw [huniq k ⟨hk, by omega⟩]
      · rw [List.count_cons_of_ne hc] at h
        rcases ih i h with ⟨j, ⟨hget, hcount⟩, huniq⟩
        refine ⟨j + 1, ⟨hget, ?_⟩, ?_⟩
        · rw [List.take_succ_cons, List.count_cons_of_ne hc, hcount]
        · rintro k ⟨hk, hcountk⟩
          cases k with
          | zero =>
              rw [List.getElem?_cons_zero, Option.some.injEq] at hk
              exact absurd hk hc
          | succ k =>
              rw [List.take_succ_cons, List.count_cons_of_ne hc] at hcountk
              rw [huniq k ⟨hk, hcountk⟩]

/-- Outputs of a copy have different names. -/
theorem copyOutput_inj (s : Scope) (id : ChannelId) (i j : Nat)
    (h : copyOutput s id i = copyOutput s id j) : i = j := by
  unfold copyOutput at h
  rw [String.append_left_inj, String.append_right_inj] at h
  -- The names differ in a number at most, and a number has one decimal text.
  have hdigits : Nat.toDigits 10 i = Nat.toDigits 10 j := by
    rw [← Nat.toList_repr, ← Nat.toList_repr]
    exact congrArg String.toList h
  have hval := congrArg (Nat.ofDigitChars 10 · 0) hdigits
  simpa only [Nat.ofDigitChars_ten_toDigits] using hval

/-- Every output of a copy serves exactly one read of its channel. -/
theorem copyOutput_serves_one (s : Scope) (reads : List ChannelId) (id : ChannelId) (i : Nat)
    (htwo : 2 ≤ reads.count id) (h : i < reads.count id) :
    ∃! j : Nat, reads[j]? = some id ∧ (servingWires s reads)[j]? = some (copyOutput s id i) := by
  -- A read of the channel is served by the output that its occurrence has.
  have hwire : ∀ j : Nat, reads[j]? = some id → (servingWires s reads)[j]?
      = some (copyOutput s id ((reads.take j).count id)) := by
    intro j hj
    rw [servingWires, List.getElem?_mapIdx, hj, Option.map_some, servingWire, if_pos htwo]
  rcases occurrence_unique reads id i h with ⟨j, ⟨hget, hcount⟩, huniq⟩
  refine ⟨j, ⟨hget, ?_⟩, ?_⟩
  · rw [hwire j hget, hcount]
  · rintro k ⟨hk, hserve⟩
    rw [hwire k hk, Option.some.injEq] at hserve
    exact huniq k ⟨hk, copyOutput_inj s id _ i hserve⟩

/-- The wiring of a lowered process. Exactly the channels that are read at
    least twice have a copy, the copies stand in order of first reads, every
    element is fed by the wires that serve its reads, and every output of a
    copy serves exactly one read. -/
theorem reads_are_served (p : Process) (s s' : Session) (out : LoweredProcess)
    (h : lowerProcess p s = .ok out s') :
    (∃ ids, List.Forall₂ (IsCopyOf p.scope p.reads) ids out.copies ∧
        (∀ id, id ∈ ids ↔ 2 ≤ p.reads.count id) ∧
        ids.Pairwise fun a b => p.reads.idxOf a < p.reads.idxOf b) ∧
      Wired p.scope p.elements (servingWires p.scope p.reads) out.instances ∧
      ∀ id i, 2 ≤ p.reads.count id → i < p.reads.count id →
        ∃! j : Nat, p.reads[j]? = some id ∧
          (servingWires p.scope p.reads)[j]? = some (copyOutput p.scope id i) := by
  rcases lowerProcess_lowered p s s' out h with ⟨uses, plan, τ, hlow⟩
  rcases foldl_addRead_pairwise p.reads with ⟨hmem, hpair⟩
  refine ⟨⟨p.copied, hlow.copied, fun id => ?_, hpair.filter _⟩, hlow.wired,
    copyOutput_serves_one p.scope p.reads⟩
  unfold Process.copied
  rw [List.mem_filter, hmem id, decide_eq_true_iff]
  -- A channel that is read twice is read, so it is among the first reads.
  refine ⟨And.right, fun htwo => ⟨?_, htwo⟩⟩
  exact List.count_pos_iff.mp (by omega)

/-- A channel feeds a cluster with a constant member and a split with an
    unconnected output, so it has a copy with two outputs: the first serves the
    cluster and the second the input of the split. -/
theorem reads_are_served_by_both_outputs :
    let p : Process := ⟨"p", ⟨[⟨"a", .int 8, .port .input, 0⟩, ⟨"g", .bool, .port .input, 1⟩,
        ⟨"x", .int 8, .internal, 2⟩, ⟨"k", .int 8, .port .output, 3⟩,
        ⟨"y", .int 8, .port .output, 4⟩]⟩,
      [.cluster [⟨.binary .add (.var 0) (.var 0), none, some 2⟩, ⟨.const 7, none, some 3⟩],
        .split 1 0 [some 4, none], .sink 2]⟩
    let s : Session := { Session.start false .empty with
      metrics := [("copy_8_2_", ⟨1, 1, 1, 1⟩), ("source_7_8_", ⟨1, 1, 1, 1⟩),
        ("unpipe_split2_1_8_", ⟨1, 1, 1, 1⟩), ("sink_8_", ⟨1, 1, 1, 1⟩)] }
    ∃ out s', lowerProcess p s = .ok out s' ∧ out.copies = [⟨"copy<8,2>", "acopy", ["a"]⟩] ∧
      Wired p.scope p.elements ["acopy.out[0]", "acopy.out[1]", "g", "x"] out.instances ∧
      ∃! j : Nat, p.reads[j]? = some 0 ∧
        (servingWires p.scope p.reads)[j]? = some (copyOutput p.scope 0 1) := by
  intro p s
  have hrun : (match lowerProcess p s with
      | .ok out _ => some out.copies
      | .error _ _ => none) = some [⟨"copy<8,2>", "acopy", ["a"]⟩] := by decide +kernel
  cases hlower : lowerProcess p s with
  | error e s' =>
      rw [hlower] at hrun
      cases hrun
  | ok out s' =>
      rw [hlower, Option.some.injEq] at hrun
      rcases reads_are_served p s s' out hlower with ⟨_, hwired, hone⟩
      have hwires : servingWires p.scope p.reads
          = ["acopy.out[0]", "acopy.out[1]", "g", "x"] := by decide +kernel
      rw [hwires] at hwired
      exact ⟨out, s', rfl, hrun, hwired, hone 0 1 (by decide) (by decide)⟩

end Wiring

end DataflowCircuit
