import DataflowCircuit.Proofs.Lowering.Determinism

/-!
# Runs of Lowering a Process

A process is lowered by writing the copies of its plan and then its elements.
The copies are written from the plan alone, and the elements leave a trace. This
file puts the two together.

`Lowered` is what one run leaves. Everything in it but the sessions is determined
by the process and the kind of templates: `Lowered.unique` says that two runs
follow the same plan and leave the same trace. The runs may start from different
sessions, and what differs afterwards is only how the sites of the trace are
named, which is the business of the table of bodies.

## Main definitions

* `Supply.copy`: The instance that copies a channel.
* `CopiesWritten`: What writing copies does.
* `Lowered`: What a run of lowering a process leaves.

## Theorems

* `lowerCopies_ok`: Copies are appended and registered, and nothing else changes.
* `lowerProcess_ok_iff`: The parts of a run.
* `lowerProcess_lowered`: What a run leaves.
* `Lowered.unique`: Two runs leave the same plan and the same trace.
-/

namespace DataflowCircuit

/-- The instance that copies a channel. -/
def Supply.copy (sup : Supply) : Instance :=
  ⟨sup.key, sup.instanceName, [sup.name]⟩

/-- The component of a copy. -/
def Supply.component (sup : Supply) : Component :=
  .copy sup.width sup.reads

namespace Lowering

/-- Everything that was done between two states is that the copies of channels
    were written. -/
structure CopiesWritten (l l' : Lowering) (sups : List Supply) : Prop where
  ports : l'.out.ports = l.out.ports
  channels : l'.out.channels = l.out.channels
  copies : l'.out.copies = l.out.copies ++ sups.map Supply.copy
  instances : l'.out.instances = l.out.instances
  plan : l'.plan = l.plan
  names : l'.names = l.names
  pipeline : l'.session.pipeline = l.session.pipeline
  bodies : l'.session.cache.bodies = l.session.cache.bodies
  /-- Copies are written while there are no instances yet. -/
  registered : l.out.instances = [] →
    ∃ calls, Registered l l' calls ∧ calls.map Call.component = sups.map Supply.component

/-- Copies are written one after another. -/
theorem CopiesWritten.append {l l' l'' : Lowering} {xs ys : List Supply}
    (h₁ : CopiesWritten l l' xs) (h₂ : CopiesWritten l' l'' ys) :
    CopiesWritten l l'' (xs ++ ys) where
  ports := h₂.ports.trans h₁.ports
  channels := h₂.channels.trans h₁.channels
  copies := by
    rw [h₂.copies, h₁.copies, List.map_append, List.append_assoc]
  instances := h₂.instances.trans h₁.instances
  plan := h₂.plan.trans h₁.plan
  names := h₂.names.trans h₁.names
  pipeline := h₂.pipeline.trans h₁.pipeline
  bodies := h₂.bodies.trans h₁.bodies
  registered := by
    intro hnone
    rcases h₁.registered hnone with ⟨cs, hcs, hxs⟩
    -- The first copies leave no instances either.
    rcases h₂.registered (h₁.instances.trans hnone) with ⟨ds, hds, hys⟩
    refine ⟨cs ++ ds, hcs.append hds, ?_⟩
    rw [List.map_append, hxs, hys, List.map_append]

/-- Nothing was written. -/
theorem copiesWritten_nil (l : Lowering) : CopiesWritten l l [] where
  ports := rfl
  channels := rfl
  copies := (List.append_nil _).symm
  instances := rfl
  plan := rfl
  names := rfl
  pipeline := rfl
  bodies := rfl
  registered := fun _ => ⟨[], registered_refl l, rfl⟩

/-- A copy is one call. Its cost is looked up, the copy is counted, and then the
    call is registered. -/
theorem lowerCopy_ok (sup : Supply) (l l' : Lowering) (u : Unit)
    (h : lowerCopy sup l = .ok u l') : CopiesWritten l l' [sup] := by
  rcases bind_ok_iff.mp h with ⟨cost, l₁, hcost, h₁⟩
  rcases onSession_ok_iff.mp hcost with ⟨t, ht, rfl⟩
  rcases requireCost_ok _ _ _ _ ht with ⟨hknown, rfl⟩
  rcases bind_ok_iff.mp h₁ with ⟨v, l₂, hrecord, h₂⟩
  rcases onSession_ok_iff.mp hrecord with ⟨t₂, ht₂, rfl⟩
  rw [← modify_ok_iff.mp ht₂] at h₂
  rcases bind_ok_iff.mp h₂ with ⟨w, l₃, hregister, h₃⟩
  have hl' := modify_ok_iff.mp h₃
  -- The cost was looked up under the key of the component.
  have hkey : sup.component.key = sup.key := Component.key_copy sup
  have hask : sup.component.ask l.session = .ok (some cost) l.session := by
    refine ask_of_known rfl ?_
    rw [hkey]
    exact hknown
  rcases register_ok _ _ _ _ w _ l₃ hregister with ⟨stats, _, hl₃⟩
  -- The calls of a state list the copies before the instances, so a copy is the last call only
  -- while there are no instances.
  have hcall : l.out.instances = [] →
      ∃ calls, Registered l l' calls ∧ calls.map Call.component = [sup.component] := by
    intro hnone
    -- The call is registered in a session that has counted the copy already.
    let counted : Session :=
      { l.session with stats := l.session.stats.recordCopy sup.width sup.reads }
    refine ⟨[sup.component.call (some cost)], registered_call _ w l
      { l with session := counted } l₃ l' l.session hask rfl rfl rfl rfl rfl ?_ ?_ ?_ ?_ ?_
      (Component.call_implements _ _), rfl⟩
    · change register _ _ _ sup.component.key _ = _
      rw [hkey]
      exact hregister
    · rw [← hl']
    · rw [← hl']
    · rw [← hl']
    · rw [← hl', hl₃]
      simp only [hnone, List.append_nil, List.map_append, List.map_singleton, ← hkey]
      rfl
  rw [hl₃] at hl'
  subst hl'
  exact ⟨rfl, rfl, rfl, rfl, rfl, rfl, rfl, rfl, hcall⟩

/-- Copies are appended in order, and nothing else that matters changes. -/
theorem lowerCopies_ok (sups : List Supply) (l l' : Lowering) (u : Unit)
    (h : lowerCopies sups l = .ok u l') : CopiesWritten l l' sups := by
  induction sups generalizing l with
  | nil =>
      rcases pure_ok_iff.mp h with ⟨_, rfl⟩
      exact copiesWritten_nil l
  | cons sup sups ih =>
      rcases bind_ok_iff.mp h with ⟨u₁, l₁, hcopy, hrest⟩
      exact (lowerCopy_ok sup l l₁ u₁ hcopy).append (ih l₁ hrest)

end Lowering

open Lowering

/-- A run of lowering a process followed `plan` and left the trace `τ`. -/
structure Lowered (p : Process) (s s' : Session) (out : LoweredProcess) (uses : UseCounts)
    (plan : CopyPlan) (τ : Trace) : Prop where
  counted : UseCounts.collect p = .ok uses
  planned : CopyPlan.plan p.scope uses = .ok plan
  traced : Traced p.scope (isConsumed ⟨p, uses⟩) p.elements τ
  kinds : ∀ b ∈ τ.kinds, b = s.pipeline
  served : ∃ plan', plan.Serves τ.served plan'
  named : ∃ names, (NameSupply.ofNames p.scope.names).Gives τ.drawn names
  ports : out.ports = p.declarations.ports
  channels : out.channels = p.declarations.channels ++ τ.declared
  copies : out.copies = plan.copies.map Supply.copy
  pipeline : s'.pipeline = s.pipeline
  bodies : s'.cache.bodies = τ.sites.foldl Site.note s.cache.bodies
  instances : ∀ T, Bodies.Keeps s'.cache.bodies T →
    out.instances = τ.sites.map (Site.toInstance T)
  /-- The copies and the sites were registered in order. -/
  registered : ∃ l l' calls, Registered l l' calls ∧ l.session = s ∧ l.out = p.declarations ∧
    l'.session = s' ∧ l'.out = out ∧ ∀ T, Bodies.Keeps s'.cache.bodies T →
      calls.map Call.component = plan.copies.map Supply.component ++
        τ.sites.map fun site => site.component.under T

/-- A process ends before anything is written, with the session as it was, or as
    writing its copies and its elements ends. -/
theorem lowerProcess_ends (p : Process) (s : Session) :
    (∃ e, lowerProcess p s = .error e s) ∨
      ∃ (uses : UseCounts) (plan : CopyPlan), lowerProcess p s =
        match (lowerCopies plan.copies >>= fun _ => lowerElements ⟨p, uses⟩ p.elements)
          ⟨s, plan, .ofNames p.scope.names, p.declarations⟩ with
        | .ok () l => .ok l.out l.session
        | .error e l => .error e l.session := by
  unfold lowerProcess
  cases UseCounts.collect p with
  | error e => exact Or.inl ⟨e, rfl⟩
  | ok uses =>
      dsimp only
      cases CopyPlan.plan p.scope uses with
      | error e => exact Or.inl ⟨e, rfl⟩
      | ok plan => exact Or.inr ⟨uses, plan, rfl⟩

/-- A run fails as writing its copies or its elements fails. -/
theorem lowerProcess_error (p : Process) (s : Session) (uses : UseCounts) (plan : CopyPlan)
    (e : Error) (l : Lowering) (huses : UseCounts.collect p = .ok uses)
    (hplan : CopyPlan.plan p.scope uses = .ok plan)
    (h : (lowerCopies plan.copies >>= fun _ => lowerElements ⟨p, uses⟩ p.elements)
      ⟨s, plan, .ofNames p.scope.names, p.declarations⟩ = .error e l) :
    lowerProcess p s = .error e l.session := by
  unfold lowerProcess
  simp only [huses, hplan]
  rw [h]

/-- The parts of a run: copies are written first, and elements from the state
    that leaves. -/
theorem lowerProcess_ok_iff (p : Process) (s s' : Session) (out : LoweredProcess) :
    lowerProcess p s = .ok out s' ↔
      ∃ uses plan l l', UseCounts.collect p = .ok uses ∧ CopyPlan.plan p.scope uses = .ok plan ∧
        lowerCopies plan.copies ⟨s, plan, .ofNames p.scope.names, p.declarations⟩ = .ok () l ∧
        lowerElements ⟨p, uses⟩ p.elements l = .ok () l' ∧ out = l'.out ∧ s' = l'.session := by
  unfold lowerProcess
  constructor
  · intro h
    cases huses : UseCounts.collect p with
    | error e =>
        rw [huses] at h
        cases h
    | ok uses =>
        rw [huses] at h
        cases hplan : CopyPlan.plan p.scope uses with
        | error e =>
            simp only [hplan] at h
            cases h
        | ok plan =>
            simp only [hplan] at h
            split at h
            · rename_i l' hrun
              -- A run that succeeded is one of the copies followed by one of the elements.
              rcases bind_ok_iff.mp hrun with ⟨u, l, hcopies, helements⟩
              cases h
              exact ⟨uses, plan, l, l', rfl, hplan, hcopies, helements, rfl, rfl⟩
            · cases h
  · rintro ⟨uses, plan, l, l', huses, hplan, hcopies, helements, rfl, rfl⟩
    have hrun : (lowerCopies plan.copies >>= fun _ => lowerElements ⟨p, uses⟩ p.elements)
        ⟨s, plan, .ofNames p.scope.names, p.declarations⟩ = .ok () l' :=
      bind_ok_iff.mpr ⟨(), l, hcopies, helements⟩
    simp only [huses, hplan]
    rw [hrun]

/-- A run leaves its copies, and then the trace of its elements. -/
theorem lowerProcess_lowered (p : Process) (s s' : Session) (out : LoweredProcess)
    (h : lowerProcess p s = .ok out s') : ∃ uses plan τ, Lowered p s s' out uses plan τ := by
  rcases (lowerProcess_ok_iff p s s' out).mp h with
    ⟨uses, plan, l, l', huses, hplan, hcopies, helements, rfl, rfl⟩
  have hc := lowerCopies_ok _ _ _ _ hcopies
  rcases (walk_lowerElements ⟨p, uses⟩ p.elements).of_ok helements with ⟨τ, htraced, hw⟩
  -- Writing the copies leaves the plan and the names as they were made, so the elements start
  -- from these.
  have hserved := hw.plan
  rw [hc.plan] at hserved
  have hnamed := hw.names
  rw [hc.names] at hnamed
  rcases hc.registered rfl with ⟨cs, hcs, hcopied⟩
  rcases hw.registered with ⟨ds, hds, hsites⟩
  refine ⟨uses, plan, τ, huses, hplan, htraced, fun b hb => (hw.kinds b hb).trans hc.pipeline,
    ⟨l'.plan, hserved⟩, ⟨l'.names, hnamed⟩, hw.ports.trans hc.ports, ?_, ?_,
    hw.pipeline.trans hc.pipeline, ?_, fun T hT => ?_,
    ⟨_, l', cs ++ ds, hcs.append hds, rfl, rfl, rfl, rfl, fun T hT => ?_⟩⟩
  · rw [hw.channels, hc.channels]
  · rw [hw.copies, hc.copies]
    rfl
  · rw [hw.bodies, hc.bodies]
  · rw [hw.instances T hT, hc.instances]
    rfl
  · rw [List.map_append, hcopied, hsites T hT]

/-- Two runs of lowering a process follow the same plan and leave the same
    trace, whatever the sessions they start from know. -/
theorem Lowered.unique {p : Process} {s s' t t' : Session} {out out' : LoweredProcess}
    {uses uses' : UseCounts} {plan plan' : CopyPlan} {τ τ' : Trace}
    (h : Lowered p s s' out uses plan τ) (h' : Lowered p t t' out' uses' plan' τ')
    (hpipeline : s.pipeline = t.pipeline) : plan = plan' ∧ τ = τ' := by
  -- Counting and planning look at the process alone.
  have huses : uses = uses' := Except.ok.inj (h.counted.symm.trans h'.counted)
  subst huses
  have hplan : plan = plan' := Except.ok.inj (h.planned.symm.trans h'.planned)
  subst hplan
  rcases h.served with ⟨_, hserves⟩
  rcases h'.served with ⟨_, hserves'⟩
  rcases h.named with ⟨_, hnamed⟩
  rcases h'.named with ⟨_, hnamed'⟩
  -- Both runs served the reads of the process from the same plan.
  have hserved := hserves.unique hserves' (h.traced.served.trans h'.traced.served.symm)
  exact ⟨rfl, h.traced.unique h'.traced h.kinds
    (fun b hb => (h'.kinds b hb).trans hpipeline.symm) hserved hnamed hnamed'⟩

end DataflowCircuit
