import DataflowCircuit.Proofs.Emit.Fitting

/-!
# Cost Blocks and the Ports they Charge

A cost block charges ports by name. The names are written once where the block
is, and a second time in the header of the template, and nothing compares the
two. This file does, and finds that they agree for every kind of template but
one: the block of a sink charges `x`, and the port of a sink is called `in`.

Kind by kind this is a comparison of two tables. In a run the block and the
template of a key can come from different call sites, which only matters for
units. The ports that the block of a unit charges are its outputs, and how many
there are can be read off the name of the template, even if fingerprints collide
and the template belongs to another unit.

## Main definitions

* `TemplateBody.portNames`: The names of the ports in a header.

## Theorems

* `portCosts_named`: What a template charges are its ports, unless it is a sink.
* `FunctionalUnit.Spelled.outputs_of_name`: The name of a unit tells how many
  outputs it has.
* `Component.charges_congr`: So what a component charges is in any header with
  the name of its template.
* `cost_blocks_charge_ports_iff`: In a run, exactly the blocks of sinks charge
  what is no port.
-/

namespace DataflowCircuit

section Tables

/-- The names of the ports in the header of a template. -/
def TemplateBody.portNames (body : TemplateBody) : List String :=
  body.printedPorts.map fun q => q.port.name

/-- Every output is in a header that lists them after other ports. -/
theorem mem_portNames_outputs (before : List PrintedPort) (n : Nat) (width : Nat → String)
    (i : Nat) (hi : i < n) :
    s!"out{i}" ∈ (before ++ (List.range n).map fun j => outPort (width j) s!"out{j}" true).map
      fun q => q.port.name := by
  rw [List.map_append, List.map_map]
  exact List.mem_append_right _ (List.mem_map.mpr ⟨i, List.mem_range.mpr hi, rfl⟩)

/-- What a template charges are its ports, unless it is a sink. -/
theorem portCosts_named (body : TemplateBody) (cost : Cost) :
    (∀ port ∈ body.portCosts (some cost), port.name ∈ body.portNames) ↔ body ≠ .sink := by
  -- The port of a join stands behind its inputs.
  have hout : ∀ (ins : List PrintedPort) (rest : List PrintedPort),
      "out" ∈ (ins ++ outPort "W" "out" true :: rest).map fun q => q.port.name := by
    intro ins rest
    rw [List.map_append]
    exact List.mem_append_right _ List.mem_cons_self
  by_cases hsink : body = .sink
  · rw [hsink]
    refine iff_of_false (fun h => ?_) fun h => h rfl
    -- The header of a sink declares `in` and nothing else.
    have hmissing : "x" ∉ TemplateBody.sink.portNames := by decide
    exact hmissing (h ⟨"x", cost.delay, cost.energy⟩ List.mem_cons_self)
  · refine iff_of_true ?_ hsink
    -- Every other header lists what is charged, which is checked body by body.
    cases body with
    | sink => exact absurd rfl hsink
    | copy =>
        simp [TemplateBody.portCosts, Lowering.throughCosts, TemplateBody.portNames,
          TemplateBody.printedPorts, dataPort]
    | buffer =>
        simp [TemplateBody.portCosts, Lowering.throughCosts, TemplateBody.portNames,
          TemplateBody.printedPorts, dataPort]
    | source => exact List.forall_mem_singleton.mpr List.mem_cons_self
    | split n =>
        intro port hport
        rcases List.mem_map.mp hport with ⟨i, hi, rfl⟩
        exact mem_portNames_outputs _ n (fun _ => "W2") i (List.mem_range.mp hi)
    | merge n =>
        refine List.forall_mem_singleton.mpr ?_
        unfold TemplateBody.portNames TemplateBody.printedPorts
        rw [List.map_append, List.map_append]
        exact List.mem_append_right _ (List.mem_append_right _ List.mem_cons_self)
    | mixer n => exact List.forall_mem_singleton.mpr (hout _ _)
    | arbiter n => exact List.forall_mem_singleton.mpr (hout _ _)
    | func fu =>
        intro port hport
        rcases List.mem_map.mp hport with ⟨i, hi, rfl⟩
        exact mem_portNames_outputs _ _ (fun j => s!"W{fu.argWidths.length + j}") i
          (List.mem_range.mp hi)

/-- The name of a unit tells how many outputs it has. -/
theorem FunctionalUnit.Spelled.outputs_of_name {fu : FunctionalUnit} (h : fu.Spelled) :
    fu.outputs.length = max 1 ((fu.name.toList.splitOn '_').countP isMemberPiece) := by
  rcases h.tokens with ⟨ts, hname, hproper, _, houts⟩
  -- The name starts with a piece that every unit has.
  have hfirst : isMemberPiece ['f', 'u', 'n', 'c'] = false := by decide
  have hmembers : (ts.map NameToken.piece).countP isMemberPiece
      = ts.countP NameToken.isMember := by
    rw [List.countP_map]
    refine List.countP_congr fun t ht => ?_
    rw [Function.comp_apply, t.isMemberPiece_piece (hproper t ht)]
  rw [houts, hname, splitOn_unitName ts hproper, List.countP_cons, hmembers, hfirst]
  rfl

/-- What a component charges is in the header of every component whose template
    has the same name, unless it is a sink. -/
theorem Component.charges_congr (c d : Component) (hc : c.Spelled) (hd : d.Spelled)
    (h : c.template.name = d.template.name) (cost : Cost) :
    (∀ port ∈ c.portCosts (some cost), port.name ∈ d.template.body.portNames) ↔
      c.template.body ≠ .sink := by
  rw [← portCosts_named c.template.body cost]
  rcases c.template_eq_of_name d hc hd h with htemplate | ⟨fu, gu, rfl, rfl⟩
  · rw [← htemplate]
    rfl
  · -- Two units of one name charge as many outputs.
    have hlength : fu.outputs.length = gu.outputs.length := by
      rw [FunctionalUnit.Spelled.outputs_of_name hc, FunctionalUnit.Spelled.outputs_of_name hd]
      exact congrArg (fun name : String => max 1 ((name.toList.splitOn '_').countP isMemberPiece)) h
    have hnone : ∀ gu : FunctionalUnit, TemplateBody.func gu ≠ .sink := fun _ h => nomatch h
    have hall := (portCosts_named (.func gu) cost).mpr (hnone gu)
    simp only [TemplateBody.portCosts, Lowering.unitPortCosts, Option.elim_some,
      List.forall_mem_map] at hall
    refine iff_of_true ?_ ((portCosts_named (.func fu) cost).mpr (hnone fu))
    unfold portCosts
    simp only [template, TemplateBody.portCosts, Lowering.unitPortCosts, Option.elim_some,
      List.forall_mem_map]
    rw [hlength]
    exact hall

/-- A template is called `sink` if it is one. -/
theorem Component.name_sink_iff (c : Component) (hc : c.Spelled) :
    c.template.name = "sink" ↔ c.template.body = .sink := by
  constructor
  · intro h
    rcases c.template_eq_of_name (.sink 0) hc trivial h with htemplate | ⟨_, _, _, hsink⟩
    · rw [htemplate]
      rfl
    · cases hsink
  · intro h
    cases c with
    | sink width => rfl
    | routing kind pipeline ports widths => cases kind <;> cases h
    | _ => cases h

end Tables

section Runs

/-- Everything but a unit is only registered with a cost. -/
theorem Asked.priced {s s' : Session} {sites : List (Component × Option Cost)}
    (h : Asked s sites s') :
    ∀ site ∈ sites, site.2 = none → ∃ fu, site.1 = .unit fu := by
  induction h with
  | done s s' hsame => exact fun _ hsite => absurd hsite List.not_mem_nil
  | ask s t t' s' c cost rest hsame hask hrest ih =>
      rw [List.forall_mem_cons]
      refine ⟨fun hnone => ?_, ih⟩
      cases c.ask_ok cost t t' hask with
      | found found hknown => cases hnone
      | unit fu _ _ hunit hpriced => exact ⟨fu, hunit⟩

/-- What a call charges is in the header of every call whose template has the same
    name, unless it is a sink. -/
theorem Session.Registered.charges_congr {s s' : Session} {calls : List Call}
    (h : Session.Registered s s' calls) (a b : Call) (ha : a ∈ calls)
    (hsa : a.component.Spelled) (hsb : b.component.Spelled)
    (hname : a.component.template.name = b.component.template.name) :
    (∀ port ∈ a.block.ports, port.name ∈ b.component.template.body.portNames) ↔
      a.component.template.name ≠ "sink" := by
  rw [Ne, a.component.name_sink_iff hsa]
  unfold Call.block
  dsimp only
  rw [a.ports_eq]
  cases hcost : a.cost with
  | some cost => exact a.component.charges_congr b.component hsa hsb hname cost
  | none =>
      rcases h.asked.priced a.site (List.mem_map_of_mem ha) hcost with ⟨fu, hfu⟩
      -- Without a cost there is nothing to charge, and what has none is a unit.
      have hunit : a.component = .unit fu := hfu
      rw [hunit]
      exact iff_of_true (fun _ hport => absurd hport List.not_mem_nil) (fun hsink => nomatch hsink)

/-- A process brings cost blocks along for its own call sites only. -/
theorem site_of_block (p : Process) (s s' : Session) (out : LoweredProcess)
    (h : lowerProcess p s = .ok out s') (block : CostBlock) (hblock : block ∈ out.costBlocks) :
    ∃ inst ∈ out.sites, inst.key = block.key := by
  rcases lowerProcess_emits p s s' out h with ⟨calls, hemitted, _⟩
  have hblocks := hemitted.blocks
  rw [List.flatMap_singleton] at hblocks
  rw [hblocks] at hblock
  rcases List.mem_map.mp (mem_of_mem_firsts CostBlock.key _ _ block hblock) with ⟨call, hcall, rfl⟩
  have hsites := hemitted.sites
  rw [List.flatMap_singleton] at hsites
  have hkey : call.key ∈ out.sites.map Instance.key := by
    rw [hsites]
    exact List.mem_map_of_mem hcall
  exact List.mem_map.mp hkey

/-- The components of a run are spelled and have headers. -/
theorem spelled_and_formed (ps : Program) (s s' : Session) (outs : List LoweredProcess)
    (h : lowerAll ps s = .ok outs s') (pipeline : Bool) (T : Bodies) :
    ∀ c ∈ ps.flatMap fun p => p.components pipeline T, c.Spelled ∧ c.Formed := by
  intro c hc
  rcases List.mem_flatMap.mp hc with ⟨p, hp, hc⟩
  refine ⟨spelled_of_mem_components p pipeline T c hc, ?_⟩
  have hall := lowerAll_ok ps s s' outs h
  rcases List.getElem?_of_mem hp with ⟨k, hk⟩
  have hlt : k < outs.length := by
    rw [hall.length]
    exact (List.getElem?_eq_some_iff.mp hk).1
  rcases hall.parts k p outs[k] hk (List.getElem?_eq_getElem hlt) with ⟨t, t', hrun, _⟩
  exact formed_of_mem_components p t t' outs[k] hrun pipeline T c hc

end Runs

/-- Cost blocks charge the ports of templates, with one exception. In a run with a
    fresh cache, the template that a cost block is for has been written when the
    process that brings the block along has; the text of every template of that
    name declares ports; and everything that the block charges is one of them if
    and only if it is not the block of a sink. -/
theorem cost_blocks_charge_ports_iff (ps : Program) (s s' : Session) (outs : List LoweredProcess)
    (hfresh : s.cache = .empty) (h : lowerAll ps s = .ok outs s') :
    ∀ (k : Nat) (out : LoweredProcess), outs[k]? = some out → ∀ block ∈ out.costBlocks,
      (∃ template ∈ (outs.take (k + 1)).flatMap LoweredProcess.templates,
        template.name = templateOf block.key) ∧
      ∀ template ∈ outs.flatMap LoweredProcess.templates,
        template.name = templateOf block.key →
          ∃ sig, Signature.read? template.render = some sig ∧
            ((∀ port ∈ block.ports, port.name ∈ sig.ports.map PortDef.name) ↔
              templateOf block.key ≠ "sink") := by
  intro k out hout block hblock
  rcases lowerAll_emits ps s s' outs h with ⟨calls, hemitted, hcalls⟩
  have hall := hcalls s'.cache.bodies (Bodies.Keeps.refl _)
  have hgood : ∀ call ∈ calls, call.component.Spelled ∧ call.component.Formed := by
    intro call hcall
    refine spelled_and_formed ps s s' outs h s.pipeline s'.cache.bodies _ ?_
    rw [← hall]
    exact List.mem_map_of_mem hcall
  -- The block is that of a call of the run.
  have hmem : block ∈ outs.flatMap LoweredProcess.costBlocks :=
    List.mem_flatMap.mpr ⟨out, List.mem_of_getElem? hout, hblock⟩
  rw [hemitted.blocks] at hmem
  rcases List.mem_map.mp (mem_of_mem_firsts CostBlock.key _ _ block hmem) with ⟨call, hcall, rfl⟩
  have hname : templateOf call.block.key = call.component.template.name :=
    call.component.templateOf_key (hgood call hcall).1
  -- The template was written by then, and whichever is meant by its name declares the same
  -- outputs.
  refine ⟨?_, fun template htemplate hsame => ?_⟩
  · have hlower := lowerAll_ok ps s s' outs h
    have hlt : k < ps.length := by
      rw [← hlower.length]
      exact (List.getElem?_eq_some_iff.mp hout).1
    rcases hlower.parts k ps[k] out (List.getElem?_eq_getElem hlt) hout with ⟨t, t', hrun, _⟩
    rcases site_of_block ps[k] t t' out hrun _ hblock with ⟨inst, hinst, hkey⟩
    rw [← hkey]
    exact template_of_site hfresh h k out hout inst hinst
  · rw [hemitted.templates] at htemplate
    rcases List.mem_map.mp (mem_of_mem_firsts Template.name _ _ template htemplate) with
      ⟨first, hfirst, rfl⟩
    rcases hgood first hfirst with ⟨hspelled, hformed⟩
    refine ⟨first.component.template.signature, ?_, ?_⟩
    · rw [first.render_eq]
      exact first.component.read_render hspelled hformed
    · have hnames : first.component.template.signature.ports.map PortDef.name
          = first.component.template.body.portNames := List.map_map ..
      rw [hnames, hname]
      refine hemitted.session.charges_congr call first hcall (hgood call hcall).1 hspelled ?_
      rw [← hname, ← hsame, first.name_eq]

/-- A process that drops what it reads. -/
def soleSink : Process :=
  ⟨"p", ⟨[⟨"a", .int 8, .port .input, 0⟩]⟩, [.sink 0]⟩

/-- A run that has done nothing and knows the cost of a sink. -/
def pricedSink : Session :=
  { Session.start false .empty with metrics := [("sink_8_", ⟨1, 1, 1, 1⟩)] }

/-- The run writes one template and one cost block, which charges `x`. -/
theorem soleSink_run : (match lowerAll [soleSink] pricedSink with
    | .ok outs _ => outs.map fun out =>
        (out.costBlocks.map (fun block => (block.key, block.ports.map PortCost.name)),
          out.templates.map Template.name)
    | .error _ _ => []) = [([("sink<8>", ["x"])], ["sink"])] := by
  decide +kernel

/-- A sink on its own: its cost block charges `x`, which is no port in the header of
    its template. -/
theorem sink_is_charged_elsewhere :
    ∃ out s' block template sig, pricedSink.cache = .empty ∧
      lowerAll [soleSink] pricedSink = .ok [out] s' ∧
      out.costBlocks = [block] ∧ block.key = "sink<8>" ∧
      block.ports.map PortCost.name = ["x"] ∧ out.templates = [template] ∧
      template.name = templateOf block.key ∧ Signature.read? template.render = some sig ∧
      "x" ∉ sig.ports.map PortDef.name := by
  have hrun := soleSink_run
  have hsink : templateOf "sink<8>" = "sink" := by decide +kernel
  cases hlower : lowerAll [soleSink] pricedSink with
  | error e s' =>
      rw [hlower] at hrun
      cases hrun
  | ok outs s' =>
      rw [hlower] at hrun
      rcases List.map_eq_singleton_iff.mp hrun with ⟨out, rfl, hout⟩
      rcases Prod.mk.inj hout with ⟨hblocks, htemplates⟩
      rcases List.map_eq_singleton_iff.mp hblocks with ⟨block, hblock, hkeyports⟩
      rcases Prod.mk.inj hkeyports with ⟨hkey, hports⟩
      rcases List.map_eq_singleton_iff.mp htemplates with ⟨template, htemplate, hname⟩
      have hof : templateOf block.key = "sink" := by rw [hkey, hsink]
      rcases (cost_blocks_charge_ports_iff [soleSink] pricedSink s' [out] rfl hlower 0 out rfl block
        (by rw [hblock]; exact List.mem_cons_self)).2 template
        (by rw [List.flatMap_singleton, htemplate]; exact List.mem_cons_self)
        (by rw [hname, hof]) with ⟨sig, hsig, hiff⟩
      refine ⟨out, s', block, template, sig, rfl, rfl, hblock, hkey, hports, htemplate,
        by rw [hname, hof], hsig, fun hmem => hiff.mp (fun port hport => ?_) hof⟩
      have hcharged : port.name ∈ ["x"] := by
        rw [← hports]
        exact List.mem_map_of_mem hport
      rw [List.mem_singleton.mp hcharged]
      exact hmem

end DataflowCircuit
