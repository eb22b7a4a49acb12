import DataflowCircuit.Proofs.Lowering.Components

/-!
# Cursors in Any Order

Lowering asks a plan for the reads of a process in the order in which they were
counted, and every question is answered. A plan does not depend on that order.
This file says what it answers when channels are asked for in any order, too
often, or without having been counted.

The plan after some calls is a function of the process and of the number of
calls for each channel, `Process.planAfter`: a cursor stands where its calls
have moved it, and never behind the last read that was counted. One call leads
from such a plan to the one with one call more, whether it is answered or
refused. What a call is answered is therefore fixed by its channel, the number
of its reads, and the number of calls for that channel before.

## Main definitions

* `CopyPlan.ask`: A call that leaves the plan as it is if it is refused.
* `CopyPlan.answers`, `CopyPlan.after`: Calls one after another.
* `dueAnswer`: The answer to a call for a channel.
* `Process.planAfter`: The plan of a process after some calls.

## Theorems

* `serve_eq_ask`: Lowering asks the plan that it carries.
* `plan_eq_planAfter`: A new plan is the one after no calls.
* `ask_planAfter`: One call more.
* `answers_planAfter`: The answers to calls in any order.
* `cursors_are_exact`: Answers, cursors, refused calls, and calls for other
  channels.
-/

namespace DataflowCircuit

namespace CopyPlan

/-- Ask for the wire of the next read of a channel. A call that is refused
    leaves the plan as it is. -/
def ask (p : CopyPlan) (id : ChannelId) : Except Error String × CopyPlan :=
  match p.next id with
  | .ok (wire, q) => (.ok wire, q)
  | .error e => (.error e, p)

/-- The answers to calls one after another, each with the channel that was asked
    for. -/
def answers : CopyPlan → List ChannelId → List (ChannelId × Except Error String)
  | _, [] => []
  | p, id :: ids => (id, (p.ask id).1) :: (p.ask id).2.answers ids

/-- The plan after calls one after another. -/
def after (p : CopyPlan) (calls : List ChannelId) : CopyPlan :=
  calls.foldl (fun p id => (p.ask id).2) p

/-- The last call is made to the plan after the others. -/
theorem after_append (p : CopyPlan) (calls : List ChannelId) (id : ChannelId) :
    p.after (calls ++ [id]) = ((p.after calls).ask id).2 := by
  rw [after, List.foldl_append]
  rfl

/-- The last answer is that of the plan after the others. -/
theorem answers_append (p : CopyPlan) (calls : List ChannelId) (id : ChannelId) :
    p.answers (calls ++ [id]) = p.answers calls ++ [(id, ((p.after calls).ask id).1)] := by
  induction calls generalizing p with
  | nil => rfl
  | cons c calls ih =>
      rw [List.cons_append, answers, ih]
      rfl

end CopyPlan

/-- Lowering asks the plan that it carries, and what is refused changes
    nothing. -/
theorem serve_eq_ask (l : Lowering) (id : ChannelId) :
    Lowering.serve id l = match l.plan.ask id with
      | (.ok wire, plan) => .ok wire { l with plan }
      | (.error e, _) => .error e l := by
  unfold CopyPlan.ask
  cases hnext : l.plan.next id with
  | error e =>
      change (Lowering.lift (l.plan.next id) >>= _) l = _
      rw [hnext]
      rfl
  | ok result =>
      change (Lowering.lift (l.plan.next id) >>= _) l = _
      rw [hnext]
      rfl

/-- The answer to a call for a channel with so many counted reads, after so many
    calls for it. A channel that is read once serves its only read itself, and
    one that is read more often has a copy with an output for each read. -/
def dueAnswer (s : Scope) (id : ChannelId) : Nat → Nat → Except Error String
  | 0, _ => .error (.inconsistentGraph (.neverCounted (id + 1)))
  | 1, 0 => .ok (s.nameOf id)
  | 1, _ + 1 => .error (.passDivergence (s.nameOf id) 1)
  | n + 2, k =>
    if k < n + 2 then .ok (copyOutput s id k)
    else .error (.passDivergence (s.nameOf id) (n + 2))

/-- A call before the last counted read is answered. -/
theorem dueAnswer_of_lt (s : Scope) (id : ChannelId) (n k : Nat) (h : k < n) :
    dueAnswer s id n k = .ok (if 2 ≤ n then copyOutput s id k else s.nameOf id) := by
  match n, k with
  | 1, 0 => rfl
  | n + 2, k =>
    have htwo : 2 ≤ n + 2 := by omega
    rw [dueAnswer, if_pos h, if_pos htwo]

/-- A call behind the last counted read is refused. -/
theorem dueAnswer_of_le (s : Scope) (id : ChannelId) (n k : Nat) (hpos : 0 < n) (h : n ≤ k) :
    dueAnswer s id n k = .error (.passDivergence (s.nameOf id) n) := by
  match n, k with
  | 1, k + 1 => rfl
  | n + 2, k => rw [dueAnswer, if_neg (by omega)]

/-- The supply of a channel after calls. -/
def Process.supply (p : Process) (calls : List ChannelId) (id : ChannelId) : Supply where
  channel := id
  name := p.scope.nameOf id
  width := p.scope.widthOf id
  reads := p.reads.count id
  served := min (p.reads.count id) (calls.count id)

/-- The plan of a process after calls. -/
def Process.planAfter (p : Process) (calls : List ChannelId) : CopyPlan :=
  ⟨(p.reads.foldl addRead []).map (p.supply calls)⟩

section Plans

/-- A new plan is the one after no calls. -/
theorem plan_eq_planAfter (p : Process) (uses : UseCounts) (plan : CopyPlan)
    (huses : UseCounts.collect p = .ok uses) (hplan : CopyPlan.plan p.scope uses = .ok plan) :
    plan = p.planAfter [] := by
  have hcounted := collect_counted p uses huses
  -- Entry by entry: a counted channel has its supply.
  have hpart : ∀ (entries : UseCounts) (sups : List Supply),
      List.Forall₂ (IsSupplyOf p.scope) entries sups →
      (∀ entry ∈ entries, entry.2 = p.reads.count entry.1) →
      sups = (entries.map Prod.fst).map (p.supply []) := by
    intro entries sups hall
    induction hall with
    | nil => exact fun _ => rfl
    | @cons entry sup entries sups hsup hrest ih =>
        intro hentries
        rw [List.forall_mem_cons] at hentries
        rcases hsup with ⟨w, hw, rfl⟩
        have hwidth : p.scope.widthOf entry.1 = w := by
          rw [Scope.widthOf, hw, Option.getD_some]
        have hhead : p.supply [] entry.1
            = ⟨entry.1, p.scope.nameOf entry.1, w, entry.2, 0⟩ := by
          rw [Process.supply, hwidth, ← hentries.1, List.count_nil, Nat.min_zero]
        rw [List.map_cons, List.map_cons, hhead, ih hentries.2]
  have hsupplies := hpart uses plan.supplies (plan_supplies p.scope uses plan hplan)
    hcounted.entries
  rw [hcounted.keys] at hsupplies
  exact congrArg CopyPlan.mk hsupplies

/-- The plan after calls has a supply for the channels that are read. -/
theorem supply?_planAfter (p : Process) (calls : List ChannelId) (id : ChannelId) :
    (p.planAfter calls).supply? id = if id ∈ p.reads then some (p.supply calls id) else none := by
  have hmem := (foldl_addRead_pairwise p.reads).1 id
  -- Supplies are looked up by their channel, which is the key they were made from.
  have hfind : (p.planAfter calls).supply? id
      = ((p.reads.foldl addRead []).find? fun c => decide (c = id)).map (p.supply calls) := by
    rw [CopyPlan.supply?, Process.planAfter, List.find?_map]
    rfl
  rw [hfind]
  cases hkey : (p.reads.foldl addRead []).find? fun c => decide (c = id) with
  | none =>
      have hid : id ∉ p.reads := fun hid =>
        List.find?_eq_none.mp hkey id (hmem.mpr hid) (decide_eq_true rfl)
      rw [if_neg hid, Option.map_none]
  | some c =>
      have hc : c = id := by
        have hsame := List.find?_some hkey
        exact of_decide_eq_true hsame
      rw [hc] at hkey
      rw [if_pos (hmem.mp (List.mem_of_find?_eq_some hkey)), hc, Option.map_some]

/-- A call moves no cursor of another channel. -/
theorem supply_of_ne (p : Process) (calls : List ChannelId) (id c : ChannelId) (h : c ≠ id) :
    p.supply (calls ++ [id]) c = p.supply calls c := by
  have hcount : (calls ++ [id]).count c = calls.count c := by
    rw [List.count_append, List.count_singleton, if_neg fun hb => h (beq_iff_eq.mp hb).symm,
      Nat.add_zero]
  rw [Process.supply, hcount]
  rfl

/-- A call counts for its channel. -/
theorem count_append_self (calls : List ChannelId) (id : ChannelId) :
    (calls ++ [id]).count id = calls.count id + 1 := by
  rw [List.count_append, List.count_singleton_self]

/-- A call that is refused moves no cursor at all. -/
theorem planAfter_of_refused (p : Process) (calls : List ChannelId) (id : ChannelId)
    (h : p.reads.count id ≤ calls.count id) :
    p.planAfter (calls ++ [id]) = p.planAfter calls := by
  refine congrArg CopyPlan.mk (List.map_congr_left fun c _ => ?_)
  by_cases hc : c = id
  · rw [hc, Process.supply, count_append_self, Nat.min_eq_left (by omega), Process.supply,
      Nat.min_eq_left h]
  · exact supply_of_ne p calls id c hc

/-- A call that is answered moves the cursor of its channel. -/
theorem planAfter_of_answered (p : Process) (calls : List ChannelId) (id : ChannelId)
    (h : calls.count id < p.reads.count id) :
    (p.planAfter calls).serve id = p.planAfter (calls ++ [id]) := by
  rw [CopyPlan.serve, Process.planAfter, List.map_map]
  refine congrArg CopyPlan.mk (List.map_congr_left fun c _ => ?_)
  change (if c = id then { p.supply calls c with served := (p.supply calls c).served + 1 }
    else p.supply calls c) = p.supply (calls ++ [id]) c
  -- The cursor of the channel moves by one on both sides.
  by_cases hc : c = id
  · rw [if_pos hc, hc, Process.supply, Process.supply, count_append_self,
      Nat.min_eq_right (by omega), Nat.min_eq_right (by omega)]
  · rw [if_neg hc]
    exact (supply_of_ne p calls id c hc).symm

/-- One call more gets the answer that is due. -/
theorem ask_planAfter (p : Process) (calls : List ChannelId) (id : ChannelId) :
    (p.planAfter calls).ask id
      = (dueAnswer p.scope id (p.reads.count id) (calls.count id),
        p.planAfter (calls ++ [id])) := by
  rw [CopyPlan.ask, CopyPlan.next, supply?_planAfter]
  -- A channel is known to the plan if it is read, and has an output left if it was not asked
  -- for too often.
  by_cases hid : id ∈ p.reads
  · have hpos := List.count_pos_iff.mpr hid
    rw [if_pos hid]
    by_cases hlt : calls.count id < p.reads.count id
    -- The cursor has not reached the end, so it stands at the number of calls.
    · have hserved : (p.supply calls id).served = calls.count id := Nat.min_eq_right (by omega)
      have hwire : (p.supply calls id).wire (calls.count id)
          = if 2 ≤ p.reads.count id then copyOutput p.scope id (calls.count id)
            else p.scope.nameOf id := by
        change (if decide (2 ≤ p.reads.count id) = true then _ else _) = _
        by_cases htwo : 2 ≤ p.reads.count id
        · rw [if_pos (decide_eq_true htwo), if_pos htwo]
          rfl
        · rw [if_neg fun hc => htwo (of_decide_eq_true hc), if_neg htwo]
          rfl
      have hroom : (p.supply calls id).served < (p.supply calls id).reads := by
        rw [hserved]
        exact hlt
      simp only [if_pos hroom]
      rw [hserved, hwire, dueAnswer_of_lt _ _ _ _ hlt, planAfter_of_answered p calls id hlt]
    -- The cursor stands at the end and stays there.
    · have hfull : ¬ (p.supply calls id).served < (p.supply calls id).reads := by
        have hserved : (p.supply calls id).served = p.reads.count id :=
          Nat.min_eq_left (by omega)
        rw [hserved]
        exact Nat.lt_irrefl _
      simp only [if_neg hfull]
      rw [dueAnswer_of_le _ _ _ _ hpos (by omega), planAfter_of_refused p calls id (by omega)]
      rfl
  · have hnone : p.reads.count id = 0 := List.count_eq_zero.mpr hid
    rw [if_neg hid, hnone, planAfter_of_refused p calls id (by omega)]
    rfl

end Plans

section Runs

/-- Calls lead from the new plan to the plan after them. -/
theorem after_planAfter (p : Process) (calls : List ChannelId) :
    (p.planAfter []).after calls = p.planAfter calls := by
  -- Calls are made from the left, so the induction takes them off at the right.
  induction calls using List.reverseRecOn with
  | nil => rfl
  | append_singleton calls id ih => rw [CopyPlan.after_append, ih, ask_planAfter]

/-- The answers to calls in any order. -/
theorem answers_planAfter (p : Process) (calls : List ChannelId) :
    (p.planAfter []).answers calls = calls.mapIdx fun i id =>
      (id, dueAnswer p.scope id (p.reads.count id) ((calls.take i).count id)) := by
  induction calls using List.reverseRecOn with
  | nil => rfl
  | append_singleton calls id ih =>
      rw [CopyPlan.answers_append, ih, after_planAfter, ask_planAfter, List.mapIdx_append,
        List.mapIdx_cons, List.mapIdx_nil, Nat.zero_add, List.take_left]
      refine congrArg (· ++ _) (List.mapIdx_eq_mapIdx_iff.mpr fun i hi => ?_)
      rw [List.take_append_of_le_length (Nat.le_of_lt hi)]

/-- Calls for some channels are answered as if no other calls were made. -/
theorem answers_filter (p : Process) (calls : List ChannelId) (P : ChannelId → Bool) :
    ((p.planAfter []).answers calls).filter (fun answer => P answer.1)
      = (p.planAfter []).answers (calls.filter P) := by
  induction calls using List.reverseRecOn with
  | nil => rfl
  | append_singleton calls id ih =>
      rw [CopyPlan.answers_append, List.filter_append, List.filter_append, ih, after_planAfter,
        ask_planAfter, List.filter_singleton, List.filter_singleton]
      -- A call that is dropped has no answer that is kept, and calls for it count for no other
      -- channel.
      cases hid : P id with
      | true =>
          rw [cond_true, cond_true, CopyPlan.answers_append, after_planAfter, ask_planAfter,
            List.count_filter hid]
      | false => rw [cond_false, cond_false, List.append_nil, List.append_nil]

end Runs

/-- Copy cursors are independent and exact in any order of calls. Let a plan be
    made from the counts of a process, which are the numbers of reads of its
    channels, and let any channels be asked for in any order. Then each call gets
    the answer that is due to it by the number of reads of its channel and the
    number of calls for it before, and lowering, wherever it carries the plan
    after these calls, is given the answer that is due to the next one. A cursor
    stands at the number of calls for its channel, or at the number of its reads
    if that is smaller. A call that is refused leaves the plan as it is. Calls
    for some channels are answered as if no others were made. -/
theorem cursors_are_exact (p : Process) (uses : UseCounts) (plan : CopyPlan)
    (huses : UseCounts.collect p = .ok uses) (hplan : CopyPlan.plan p.scope uses = .ok plan)
    (calls : List ChannelId) :
    (∀ id, uses.reads id = p.reads.count id) ∧
      plan.answers calls = calls.mapIdx (fun i id =>
        (id, dueAnswer p.scope id (uses.reads id) ((calls.take i).count id))) ∧
      (∀ (l : Lowering) (id : ChannelId), l.plan = plan.after calls →
        Lowering.serve id l = match dueAnswer p.scope id (uses.reads id) (calls.count id) with
          | .ok wire => .ok wire { l with plan := plan.after (calls ++ [id]) }
          | .error e => .error e l) ∧
      (plan.after calls).supplies = plan.supplies.map (fun sup =>
        { sup with served := min sup.reads (calls.count sup.channel) }) ∧
      (∀ id e, ((plan.after calls).ask id).1 = .error e →
        plan.after (calls ++ [id]) = plan.after calls) ∧
      ∀ P : ChannelId → Bool, (plan.answers calls).filter (fun answer => P answer.1)
        = plan.answers (calls.filter P) := by
  have hreads := (collect_counted p uses huses).reads
  have hnew := plan_eq_planAfter p uses plan huses hplan
  refine ⟨hreads, ?_, fun l id hl => ?_, ?_, fun id e he => ?_, fun P => ?_⟩
  · rw [hnew, answers_planAfter]
    simp only [hreads]
  · rw [serve_eq_ask, hl, hnew, after_planAfter, after_planAfter, ask_planAfter, hreads]
    cases dueAnswer p.scope id (p.reads.count id) (calls.count id) <;> rfl
  · rw [hnew, after_planAfter, Process.planAfter, Process.planAfter, List.map_map]
    rfl
  · rw [CopyPlan.after_append]
    unfold CopyPlan.ask at he ⊢
    -- A call that was answered is no refusal.
    cases hnext : (plan.after calls).next id with
    | ok result =>
        rw [hnext] at he
        cases he
    | error e' => rfl
  · rw [hnew]
    exact answers_filter p calls P

/-- A channel is read by a function and by a split, the guard of the split once.
    Both are asked for once too often, and so is a channel that does not exist. -/
theorem cursors_are_exact_when_overdrawn :
    let p : Process := ⟨"p", ⟨[⟨"a", .int 8, .port .input, 0⟩, ⟨"g", .bool, .port .input, 1⟩,
        ⟨"x", .int 8, .port .output, 2⟩, ⟨"y", .int 8, .port .output, 3⟩,
        ⟨"z", .int 8, .port .output, 4⟩]⟩,
      [.func ⟨.binary .add (.var 0) (.var 0), none, some 2⟩, .split 1 0 [some 3, some 4]]⟩
    let uses : UseCounts := [(0, 2), (1, 1)]
    let plan : CopyPlan := ⟨[⟨0, "a", 8, 2, 0⟩, ⟨1, "g", 1, 1, 0⟩]⟩
    UseCounts.collect p = .ok uses ∧ CopyPlan.plan p.scope uses = .ok plan ∧
      plan.answers [0, 9, 1, 0, 1, 0] = [(0, .ok "acopy.out[0]"),
        (9, .error (.inconsistentGraph (.neverCounted 10))), (1, .ok "g"),
        (0, .ok "acopy.out[1]"), (1, .error (.passDivergence "g" 1)),
        (0, .error (.passDivergence "a" 2))] := by
  intro p uses plan
  have huses : UseCounts.collect p = .ok uses := rfl
  have hplan : CopyPlan.plan p.scope uses = .ok plan := rfl
  refine ⟨huses, hplan, ?_⟩
  rw [(cursors_are_exact p uses plan huses hplan [0, 9, 1, 0, 1, 0]).2.1]
  decide +kernel

end DataflowCircuit
