import DataflowCircuit.Proofs.Netlist.Deduplication

/-!
# Shared Costs

A cost block is written once under its key, with the cost and the port costs of
the first call site that has the key. The table of costs changes while the run
goes on, because units are estimated, so a later call site with the same key
could have been answered differently. This file shows that it is not.

All questions of a run are answered again by the table at its end, and what that
table answers depends on the key alone. So do the port costs: what they are
charged to depends on the template, and the energy of a unit is divided among
its outputs, whose number is read off the key.

## Theorems

* `cost_eq_of_key`: Calls of a run with the same key have the same cost and the
  same port costs.
* `shared_costs_describe_every_call`: A shared cost block is right for every
  call site.
-/

namespace DataflowCircuit

section Costs

variable {s s' : Session} {calls : List Call}

/-- Calls of a run with the same key have the same cost and the same port
    costs. -/
theorem cost_eq_of_key (h : Session.Registered s s' calls)
    (hspelled : ∀ call ∈ calls, call.component.Spelled) (a b : Call) (ha : a ∈ calls)
    (hb : b ∈ calls) (hkey : a.key = b.key) : a.cost = b.cost ∧ a.ports = b.ports := by
  have hsites : ∀ site ∈ calls.map Call.site, site.1.Spelled := by
    intro site hsite
    rcases List.mem_map.mp hsite with ⟨call, hcall, rfl⟩
    exact hspelled call hcall
  have hknown := (h.asked.learns hsites).2
  -- The table at the end gives both answers again.
  have hcost : a.cost = b.cost := by
    have hafter := hknown a.site (List.mem_map_of_mem ha)
    have hbefore := hknown b.site (List.mem_map_of_mem hb)
    rw [← show a.site.2 = a.cost from rfl, ← hafter, ← show b.site.2 = b.cost from rfl, ← hbefore]
    exact a.component.known_congr b.component (hspelled a ha) (hspelled b hb) hkey _
  refine ⟨hcost, ?_⟩
  -- The ports follow from the cost and the key.
  rw [a.ports_eq, b.ports_eq, hcost]
  exact a.component.portCosts_congr b.component (hspelled a ha) (hspelled b hb) hkey _

end Costs

/-- A shared cost block is right for every call site. Everything that a run with
    a fresh cache registers are calls for the components of its processes; two
    calls with the same key, in whatever processes, hand over the same cost and the
    same port costs, which are those of the component; and the one cost block with
    the key of a call is the block of that call. -/
theorem shared_costs_describe_every_call (ps : Program) (s s' : Session)
    (outs : List LoweredProcess) (hfresh : s.cache = .empty)
    (h : lowerAll ps s = .ok outs s') :
    ∃ calls, Emitted s s' outs calls ∧
      calls.map Call.component = (ps.flatMap fun p => p.components s.pipeline s'.cache.bodies) ∧
      (∀ a ∈ calls, ∀ b ∈ calls, a.key = b.key → a.cost = b.cost ∧ a.ports = b.ports) ∧
      (∀ call ∈ calls, call.ports = call.component.portCosts call.cost) ∧
      ∀ call ∈ calls, ∀ block, block ∈ outs.flatMap LoweredProcess.costBlocks ∧
        block.key = call.key ↔ block = call.block := by
  rcases lowerAll_emits ps s s' outs h with ⟨calls, hemitted, hcalls⟩
  have hall := hcalls s'.cache.bodies (Bodies.Keeps.refl _)
  have hspelled := spelled_of_calls ps s.pipeline s'.cache.bodies calls hall
  have hsame := cost_eq_of_key hemitted.session hspelled
  -- A block is that of the first call with its key, and every other call has the same.
  have hblock : ∀ call ∈ calls, ∀ block ∈ outs.flatMap LoweredProcess.costBlocks,
      block.key = call.key → block = call.block := by
    intro call hcall block hblock hkey
    rw [hemitted.blocks] at hblock
    rcases List.mem_map.mp (mem_of_mem_firsts CostBlock.key _ _ block hblock) with
      ⟨first, hfirst, rfl⟩
    rcases hsame first call hfirst hcall hkey with ⟨hcost, hports⟩
    have hkey : first.key = call.key := hkey
    unfold Call.block
    rw [hkey, hports, hcost]
  refine ⟨calls, hemitted, hall, fun a ha b hb => hsame a b ha hb,
    fun call _ => call.ports_eq, fun call hcall block => ?_⟩
  constructor
  · exact fun hb => hblock call hcall block hb.1 hb.2
  · rintro rfl
    rcases List.mem_map.mp ((hemitted.mem_blocks hfresh call.key).mpr ⟨call, hcall, rfl⟩) with
      ⟨block, hmem, hkey⟩
    rw [← hblock call hcall block hmem hkey]
    exact ⟨hmem, hkey⟩

/-- Two processes have a cluster of the same shape, with the buffer behind
    different outputs. The clusters have one key, so they share the cost block
    that the first process writes, in which each output carries half of the
    energy. -/
theorem clusters_share_their_cost :
    let p : Process := ⟨"p", ⟨[⟨"a", .int 8, .port .input, 0⟩,
        ⟨"x", .int 8, .port .output, 1⟩, ⟨"y", .int 8, .port .output, 2⟩]⟩,
      [.cluster [⟨.binary .add (.var 0) (.var 0), some ⟨2, none⟩, some 1⟩,
        ⟨.var 0, none, some 2⟩]]⟩
    let q : Process := ⟨"q", ⟨[⟨"b", .int 8, .port .input, 0⟩,
        ⟨"u", .int 8, .port .output, 1⟩, ⟨"v", .int 8, .port .output, 2⟩]⟩,
      [.cluster [⟨.binary .add (.var 0) (.var 0), none, some 1⟩,
        ⟨.var 0, some ⟨2, none⟩, some 2⟩]]⟩
    let s : Session := { Session.start false .empty with
      metrics := [("buffer_2_8_", ⟨1, 1, 1, 1⟩),
        ("func_0addd0_8_p0_port_8_p1_8_8_8_8_8_", ⟨5, 6, 7, 8⟩)] }
    ∃ outs s' calls, lowerAll [p, q] s = .ok outs s' ∧ Emitted s s' outs calls ∧
      calls.map Call.key = ["func_0addd0_8_p0_port_8_p1<8,8,8,8,8>", "buffer<2,8>",
        "func_0addd0_8_p0_port_8_p1<8,8,8,8,8>", "buffer<2,8>"] ∧
      ∀ call ∈ calls, call.key = "func_0addd0_8_p0_port_8_p1<8,8,8,8,8>" →
        call.cost = some ⟨5, 6, 7, 8⟩ ∧
          call.ports = [⟨"out0", 7, 3⟩, ⟨"out1", 7, 3⟩] := by
  intro p q s
  let unit : CostBlock := ⟨"func_0addd0_8_p0_port_8_p1<8,8,8,8,8>",
    [⟨"out0", 7, 3⟩, ⟨"out1", 7, 3⟩], some ⟨5, 6, 7, 8⟩⟩
  let buffer : CostBlock := ⟨"buffer<2,8>", [⟨"in", 0, 0⟩, ⟨"out", 1, 1⟩], some ⟨1, 1, 1, 1⟩⟩
  have hrun : (match lowerAll [p, q] s with
      | .ok outs _ => some ((outs.flatMap LoweredProcess.sites).map Instance.key,
          outs.flatMap LoweredProcess.costBlocks)
      | .error _ _ => none) = some ([unit.key, buffer.key, unit.key, buffer.key],
        [unit, buffer]) := by decide +kernel
  split at hrun
  · rename_i outs s' hlower
    rw [Option.some.injEq, Prod.mk.injEq] at hrun
    rcases shared_costs_describe_every_call [p, q] s s' outs rfl hlower with
      ⟨calls, hemitted, _, _, _, hblocks⟩
    refine ⟨outs, s', calls, hlower, hemitted, ?_, fun call hcall hkey => ?_⟩
    · rw [← hemitted.sites, hrun.1]
    -- The one block with this key is that of the call, whichever call it is.
    · have hblock : unit = call.block := by
        refine (hblocks call hcall unit).mp ⟨?_, hkey.symm⟩
        rw [hrun.2]
        exact List.mem_cons_self
      have hcost : unit.cost = call.cost := congrArg CostBlock.cost hblock
      exact ⟨hcost.symm, (congrArg CostBlock.ports hblock).symm⟩
  · cases hrun

end DataflowCircuit
