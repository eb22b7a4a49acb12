import DataflowCircuit.Proofs.Lowering.Cursors

/-!
# Deduplication

Templates and cost blocks are written once in a run over processes, however
many call sites use them. This file puts the calls of the elements together to
those of a run, and reads off them that nothing is lost and nothing repeated.

A process registers its copies and then its elements, so its calls are its
components. `Emitted` is what consecutive processes leave: one list of calls,
of which the outputs have the first template with each name and the first cost
block with each key. It holds of a prefix of a run as well as of the whole run,
which is how a process is known to bring along, together with the processes
before it, everything that its call sites refer to.

## Main definitions

* `LoweredProcess.sites`: The copies and instances of a lowered process.
* `Emitted`: The calls of consecutive processes.

## Theorems

* `plan_copies`: The copies of a plan are the copies of the process.
* `lowerProcess_emits`: A process registers its components.
* `lowerAll_emits`: So do processes one after another.
* `lowered_upto`: The calls of a run up to one of its processes.
* `templates_and_costs_are_written_once`: Deduplication loses and repeats
  nothing.
-/

namespace DataflowCircuit

/-- The copies and instances of a lowered process. -/
def LoweredProcess.sites (out : LoweredProcess) : List Instance :=
  out.copies ++ out.instances

/-- Everything that was registered for consecutive processes are the calls
    `calls`, and their outputs have what is new of it. -/
structure Emitted (s s' : Session) (outs : List LoweredProcess) (calls : List Call) : Prop where
  session : Session.Registered s s' calls
  templates : outs.flatMap LoweredProcess.templates
    = firsts Template.name s.cache.templates (calls.map Call.template)
  blocks : outs.flatMap LoweredProcess.costBlocks
    = firsts CostBlock.key s.cache.instances (calls.map Call.block)
  sites : (outs.flatMap LoweredProcess.sites).map Instance.key = calls.map Call.key

/-- No process registers nothing. -/
theorem emitted_nil (s : Session) : Emitted s s [] [] :=
  ⟨Session.registered_nil s s rfl rfl rfl rfl, rfl, rfl, rfl⟩

/-- Calls of consecutive processes are joined. -/
theorem Emitted.append {s t u : Session} {outs outs' : List LoweredProcess} {xs ys : List Call}
    (h₁ : Emitted s t outs xs) (h₂ : Emitted t u outs' ys) :
    Emitted s u (outs ++ outs') (xs ++ ys) where
  session := h₁.session.append h₂.session
  templates := by
    rw [List.flatMap_append, h₁.templates, h₂.templates, h₁.session.names, List.map_append,
      firsts_append]
  blocks := by
    rw [List.flatMap_append, h₁.blocks, h₂.blocks, h₁.session.keys, List.map_append, firsts_append]
  sites := by
    rw [List.flatMap_append, List.map_append, h₁.sites, h₂.sites, List.map_append]

section Processes

open Lowering

/-- The copies of a plan are the copies of the process. -/
theorem plan_copies (p : Process) (uses : UseCounts) (plan : CopyPlan)
    (huses : UseCounts.collect p = .ok uses) (hplan : CopyPlan.plan p.scope uses = .ok plan) :
    plan.copies.map Supply.component = p.copies := by
  -- A plan has the supplies of the counted channels, of which those that are read twice are
  -- copied.
  rw [plan_eq_planAfter p uses plan huses hplan, CopyPlan.copies, Process.planAfter,
    List.filter_map, List.map_map]
  rfl

/-- Between the start of a process and its end its components are registered, the
    copies first and then the elements in order. -/
theorem lowerProcess_registers (p : Process) (s s' : Session) (out : LoweredProcess)
    (h : lowerProcess p s = .ok out s') :
    ∃ l l' calls, Registered l l' calls ∧ l.session = s ∧ l.out = p.declarations ∧
      l'.session = s' ∧ l'.out = out ∧ ∀ T, Bodies.Keeps s'.cache.bodies T →
        calls.map Call.component = p.components s.pipeline T := by
  rcases lowerProcess_lowered p s s' out h with ⟨uses, plan, τ, hlow⟩
  rcases hlow.registered with ⟨l, l', calls, hcalls, hl, hstart, hl', hout, hcomponents⟩
  refine ⟨l, l', calls, hcalls, hl, hstart, hl', hout, fun T hT => ?_⟩
  rw [hcomponents T hT, plan_copies p uses plan hlow.counted hlow.planned]
  exact congrArg (p.copies ++ ·) (hlow.observed.components hlow.kinds T)

/-- A process registers its components. -/
theorem lowerProcess_emits (p : Process) (s s' : Session) (out : LoweredProcess)
    (h : lowerProcess p s = .ok out s') :
    ∃ calls, Emitted s s' [out] calls ∧ ∀ T, Bodies.Keeps s'.cache.bodies T →
      calls.map Call.component = p.components s.pipeline T := by
  rcases lowerProcess_registers p s s' out h with
    ⟨l, l', calls, hall, rfl, hstart, rfl, rfl, hcomponents⟩
  have htemplates := hall.templates
  have hblocks := hall.blocks
  have hsites := hall.sites
  -- A process starts with nothing written.
  rw [hstart] at htemplates hblocks hsites
  refine ⟨calls, ⟨hall.session, ?_, ?_, ?_⟩, hcomponents⟩
  · rw [List.flatMap_singleton]
    exact htemplates
  · rw [List.flatMap_singleton]
    exact hblocks
  · rw [List.flatMap_singleton]
    exact hsites

/-- Processes register their components one after another. -/
theorem lowerAll_emits (ps : Program) (s s' : Session) (outs : List LoweredProcess)
    (h : lowerAll ps s = .ok outs s') :
    ∃ calls, Emitted s s' outs calls ∧ ∀ T, Bodies.Keeps s'.cache.bodies T →
      calls.map Call.component = ps.flatMap fun p => p.components s.pipeline T := by
  induction ps generalizing s outs with
  | nil =>
      rcases pure_ok_iff.mp h with ⟨rfl, rfl⟩
      exact ⟨[], emitted_nil s, fun _ _ => rfl⟩
  | cons p ps ih =>
      rcases bind_ok_iff.mp h with ⟨out, t, hp, h₁⟩
      rcases bind_ok_iff.mp h₁ with ⟨rest, t', hrest, h₂⟩
      rcases pure_ok_iff.mp h₂ with ⟨rfl, rfl⟩
      -- The table at the end keeps what the first process noted.
      rcases lowerProcess_emits p s t out hp with ⟨xs, hxs, hcs⟩
      rcases ih t rest hrest with ⟨ys, hys, hds⟩
      refine ⟨xs ++ ys, hxs.append hys, fun T hT => ?_⟩
      rw [List.map_append, hcs T (hys.session.bodies.trans hT), hds T hT, hxs.session.pipeline,
        List.flatMap_cons]

/-- The calls of a run up to one of its processes, of which the last are the
    calls of that process. -/
theorem lowered_upto (ps : Program) (s s' : Session) (outs : List LoweredProcess)
    (h : lowerAll ps s = .ok outs s') (k : Nat) (out : LoweredProcess)
    (hout : outs[k]? = some out) :
    ∃ p t before calls, ps[k]? = some p ∧ Emitted s t (outs.take (k + 1)) (before ++ calls) ∧
      out.sites.map Instance.key = calls.map Call.key ∧
      calls.map Call.component = p.components s.pipeline s'.cache.bodies := by
  induction ps generalizing s outs k with
  | nil =>
      rcases pure_ok_iff.mp h with ⟨rfl, _⟩
      cases hout
  | cons p ps ih =>
      rcases bind_ok_iff.mp h with ⟨first, t, hp, h₁⟩
      rcases bind_ok_iff.mp h₁ with ⟨rest, t', hrest, h₂⟩
      rcases pure_ok_iff.mp h₂ with ⟨rfl, rfl⟩
      rcases lowerProcess_emits p s t first hp with ⟨xs, hxs, hcs⟩
      -- Either the first process is meant, or one of those behind it.
      cases k with
      | zero =>
          cases hout
          rcases lowerAll_emits ps t t' rest hrest with ⟨ys, hys, _⟩
          have hsites := hxs.sites
          rw [List.flatMap_singleton] at hsites
          exact ⟨p, t, [], xs, rfl, hxs, hsites, hcs _ hys.session.bodies⟩
      | succ k =>
          rcases ih t rest hrest k hout with
            ⟨q, u, before, calls, hq, hemitted, hsites, hcomponents⟩
          refine ⟨q, u, xs ++ before, calls, hq, ?_, hsites, ?_⟩
          · rw [List.append_assoc]
            exact hxs.append hemitted
          · rw [hcomponents, hxs.session.pipeline]

end Processes

/-- Calls of components of a program are spelled. -/
theorem spelled_of_calls (ps : Program) (pipeline : Bool) (T : Bodies) (calls : List Call)
    (h : calls.map Call.component = ps.flatMap fun p => p.components pipeline T) :
    ∀ call ∈ calls, call.component.Spelled := by
  intro call hcall
  have hmem := List.mem_map_of_mem (f := Call.component) hcall
  rw [h] at hmem
  rcases List.mem_flatMap.mp hmem with ⟨p, _, hp⟩
  exact spelled_of_mem_components p pipeline T _ hp

section Fresh

variable {s t : Session} {outs : List LoweredProcess} {calls : List Call}

/-- The names of the templates that processes bring along in a fresh run are
    those of their calls. -/
theorem Emitted.mem_templates (h : Emitted s t outs calls) (hfresh : s.cache = .empty)
    (name : String) :
    name ∈ (outs.flatMap LoweredProcess.templates).map Template.name ↔
      ∃ call ∈ calls, call.component.template.name = name := by
  -- With a fresh cache nothing was seen before.
  rw [h.templates, mem_keys_firsts, hfresh]
  simp [Cache.empty, Call.name_eq]

/-- So are the keys of the cost blocks. -/
theorem Emitted.mem_blocks (h : Emitted s t outs calls) (hfresh : s.cache = .empty)
    (key : String) :
    key ∈ (outs.flatMap LoweredProcess.costBlocks).map CostBlock.key ↔
      ∃ call ∈ calls, call.key = key := by
  rw [h.blocks, mem_keys_firsts, hfresh]
  simp [Cache.empty, Call.block]

end Fresh

/-- Deduplication loses and repeats nothing. In a run with a fresh cache no
    template name and no key of a cost block is written twice, the keys of the
    cost blocks are those of all copies and instances, and the template and the
    cost block of every copy and instance have been written when its process
    has. -/
theorem templates_and_costs_are_written_once (ps : Program) (s s' : Session)
    (outs : List LoweredProcess) (hfresh : s.cache = .empty)
    (h : lowerAll ps s = .ok outs s') :
    ((outs.flatMap LoweredProcess.templates).map Template.name).Nodup ∧
      ((outs.flatMap LoweredProcess.costBlocks).map CostBlock.key).Nodup ∧
      (∀ key, key ∈ (outs.flatMap LoweredProcess.costBlocks).map CostBlock.key ↔
        key ∈ (outs.flatMap LoweredProcess.sites).map Instance.key) ∧
      ∀ k out, outs[k]? = some out → ∀ inst ∈ out.sites,
        templateOf inst.key
            ∈ ((outs.take (k + 1)).flatMap LoweredProcess.templates).map Template.name ∧
          inst.key ∈ ((outs.take (k + 1)).flatMap LoweredProcess.costBlocks).map CostBlock.key := by
  rcases lowerAll_emits ps s s' outs h with ⟨calls, hemitted, _⟩
  refine ⟨?_, ?_, fun key => ?_, fun k out hout inst hinst => ?_⟩
  · rw [hemitted.templates]
    exact nodup_firsts Template.name _ _
  · rw [hemitted.blocks]
    exact nodup_firsts CostBlock.key _ _
  · rw [hemitted.mem_blocks hfresh, hemitted.sites, List.mem_map]
  · rcases lowered_upto ps s s' outs h k out hout with
      ⟨p, t, before, own, _, hupto, hsites, hcomponents⟩
    -- The key of an instance is that of a call of its own process.
    have hkey : inst.key ∈ own.map Call.key := by
      rw [← hsites]
      exact List.mem_map_of_mem hinst
    rcases List.mem_map.mp hkey with ⟨call, hcall, hcallkey⟩
    have hmem : call ∈ before ++ own := List.mem_append_right _ hcall
    have hspelled : call.component.Spelled := by
      refine spelled_of_mem_components p s.pipeline s'.cache.bodies _ ?_
      rw [← hcomponents]
      exact List.mem_map_of_mem hcall
    refine ⟨(hupto.mem_templates hfresh _).mpr ⟨call, hmem, ?_⟩,
      (hupto.mem_blocks hfresh _).mpr ⟨call, hmem, hcallkey⟩⟩
    rw [← hcallkey]
    exact (call.component.templateOf_key hspelled).symm

/-- A process with a copy, a source, a unit, a split and two sinks, lowered twice
    in one run: the second time it brings nothing along, and everything it
    refers to was written the first time. -/
theorem second_process_brings_nothing :
    let p : Process := ⟨"p", ⟨[⟨"a", .int 8, .port .input, 0⟩, ⟨"g", .bool, .port .input, 1⟩,
        ⟨"x", .int 8, .internal, 2⟩, ⟨"k", .int 8, .port .output, 3⟩,
        ⟨"y", .int 8, .port .output, 4⟩]⟩,
      [.cluster [⟨.binary .add (.var 0) (.var 0), none, some 2⟩, ⟨.const 7, none, some 3⟩],
        .split 1 0 [some 4, none], .sink 2]⟩
    let s : Session := { Session.start false .empty with
      metrics := [("copy_8_2_", ⟨1, 1, 1, 1⟩), ("source_7_8_", ⟨1, 1, 1, 1⟩),
        ("unpipe_split2_1_8_", ⟨1, 1, 1, 1⟩), ("sink_8_", ⟨1, 1, 1, 1⟩)] }
    ∃ first second s', lowerAll [p, p] s = .ok [first, second] s' ∧
      first.sites.length = 6 ∧ first.templates.length = 5 ∧ first.costBlocks.length = 5 ∧
      second.templates = [] ∧ second.costBlocks = [] ∧
      ∀ inst ∈ second.sites, templateOf inst.key ∈ first.templates.map Template.name ∧
        inst.key ∈ first.costBlocks.map CostBlock.key := by
  intro p s
  have hrun : (match lowerAll [p, p] s with
      | .ok outs _ => outs.map fun out =>
          (out.sites.length, out.templates.length, out.costBlocks.length)
      | .error _ _ => []) = [(6, 5, 5), (6, 0, 0)] := by decide +kernel
  cases hlower : lowerAll [p, p] s with
  | error e s' =>
      rw [hlower] at hrun
      cases hrun
  | ok outs s' =>
      rw [hlower] at hrun
      rcases List.map_eq_cons_iff.mp hrun with ⟨first, rest, rfl, hfirst, hrest⟩
      rcases List.map_eq_singleton_iff.mp hrest with ⟨second, rfl, hsecond⟩
      simp only [Prod.mk.injEq, List.length_eq_zero_iff] at hfirst hsecond
      have hall := (templates_and_costs_are_written_once [p, p] s s' [first, second] rfl
        hlower).2.2.2
      refine ⟨first, second, s', rfl, hfirst.1, hfirst.2.1, hfirst.2.2, hsecond.2.1,
        hsecond.2.2, fun inst hinst => ?_⟩
      have hboth := hall 1 second rfl inst hinst
      simpa [hsecond.2.1, hsecond.2.2] using hboth

end DataflowCircuit
