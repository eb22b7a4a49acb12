import DataflowCircuit.Proofs.FunctionalUnit.Spelling
import DataflowCircuit.Proofs.Lowering.Trace
import Mathlib.Data.List.Forall2

/-!
# Writing Call Sites

A call site is written in two parts: its cost is found, and its instance is
added to the output with the template and the cost block if they are new. The
trace of both together is the one site.

Most costs are in the table already when they are looked up, and the instance
may then be written later, because the table keeps its entries. The unit of a
function is the exception. The costs of its buffers are looked up first, then
the unit is named, and priced under that name, and its instance is written; the
buffers come last, with the costs that were found in the beginning.

The arguments of a unit are found by lowering bodies, and the wires that serve
them by counting reads. Looking the wires up by channel gives them back in the
order in which they were served, `traverse_sourceOf`.

## Main definitions

* `Members.site`: The call site of the unit of gathered members.
* `PendingBuffer.component`, `PendingBuffer.site`: What is written for a buffer.

## Theorems

* `written_emit`: An instance whose cost was asked for is a call site.
* `disambiguate_ok`, `registered_disambiguate`: What naming a unit does.
* `bufferCosts_ok`, `written_emitBuffers`: Buffers.
* `written_emitUnit`: Members become their unit, then their buffers.
-/

namespace DataflowCircuit

namespace Lowering

section Sites

variable {l l' : Lowering}

/-- A component that is no unit is asked for without a change, and its instance
    is written. -/
theorem written_emit (c : Component) (hunit : ∀ fu, c ≠ .unit fu)
    (hcopy : ∀ width reads, c ≠ .copy width reads) (cost : Cost) (inst : Instance)
    (hkey : inst.key = c.key) (u : Unit) (hask : c.ask l.session = .ok (some cost) l.session)
    (h : emit c.template (some cost) (c.portCosts (some cost)) inst l = .ok u l') :
    Written l l' (.writes [⟨c, inst.name, inst.ports⟩]) := by
  have hregistered := registered_emit (c.call (some cost)) inst u l l' l.session hask hcopy hkey
    (c.call_implements _) h
  -- The table of bodies names units only, so it neither renames this component nor notes it.
  have hunder : ∀ T, c.under T = c := by
    intro T
    cases c with
    | unit fu => exact absurd rfl (hunit fu)
    | _ => rfl
  have hnote : Site.note l.session.cache.bodies ⟨c, inst.name, inst.ports⟩
      = l.session.cache.bodies := by
    cases c with
    | unit fu => exact absurd rfl (hunit fu)
    | _ => rfl
  rcases emit_ok _ _ _ _ u l l' h with ⟨stats, _, rfl⟩
  refine ⟨List.forall_mem_nil _, rfl, rfl, rfl, rfl, (List.append_nil _).symm, hnote.symm,
    fun T _ => ?_, ⟨_, hregistered, fun T _ => ?_⟩, fun _ h => h⟩
  · simp only [Trace.writes_sites, List.map_cons, List.map_nil, Site.toInstance, hunder, ← hkey]
  · simp only [Trace.writes_sites, List.map_cons, List.map_nil, hunder]
    rfl

/-- A cost that is in the table is found under the key of its component. -/
theorem ask_of_known {c : Component} (hc : c.isRequired = true) {cost : Cost} {s : Session}
    (hknown : s.metrics.lookup c.key = some cost) : c.ask s = .ok (some cost) s := by
  rw [Component.ask_of_isRequired hc]
  exact bind_ok_iff.mpr ⟨cost, s, requireCost_eq _ _ _ hknown, rfl⟩

end Sites

section Naming

/-- Naming a unit notes its body and answers what every later table says. -/
theorem disambiguate_ok (name body answer : String) (s s' : Session)
    (h : Session.disambiguate name body s = .ok answer s') :
    s'.pipeline = s.pipeline ∧
      s'.cache.bodies = Bodies.note s.cache.bodies name (Text.fingerprint body) ∧
      ∀ T, Bodies.Keeps s'.cache.bodies T →
        answer = Bodies.templateName T name (Text.fingerprint body) := by
  rcases bind_ok_iff.mp h with ⟨s₀, s₁, hget, h⟩
  rcases get_ok_iff.mp hget with ⟨rfl, rfl⟩
  rcases bind_ok_iff.mp h with ⟨u, s₂, hmod, h⟩
  have hs₂ := modify_ok_iff.mp hmod
  rcases bind_ok_iff.mp h with ⟨v, s₃, hwarn, h⟩
  have hs₃ := modify_ok_iff.mp hwarn
  rcases pure_ok_iff.mp h with ⟨hanswer, rfl⟩
  rw [← hs₃, ← hs₂, ← hanswer]
  refine ⟨rfl, Cache.disambiguate_bodies s.cache name body, fun T hT => ?_⟩
  exact Cache.disambiguate_name s.cache name body T hT

/-- Naming a unit registers nothing. -/
theorem registered_disambiguate (name body answer : String) (s s' : Session)
    (h : Session.disambiguate name body s = .ok answer s') : Session.Registered s s' [] := by
  rcases disambiguate_ok name body answer s s' h with ⟨hpipeline, hbodies, _⟩
  have hrest : s'.cache.templates = s.cache.templates ∧ s'.cache.instances = s.cache.instances ∧
      s'.stats = s.stats ∧ s'.pricing = s.pricing := by
    rcases bind_ok_iff.mp h with ⟨s₀, s₁, hget, h₁⟩
    rcases get_ok_iff.mp hget with ⟨rfl, rfl⟩
    rcases bind_ok_iff.mp h₁ with ⟨u, s₂, hmod, h₂⟩
    have hs₂ := modify_ok_iff.mp hmod
    rcases bind_ok_iff.mp h₂ with ⟨v, s₃, hwarn, h₃⟩
    have hs₃ := modify_ok_iff.mp hwarn
    rcases pure_ok_iff.mp h₃ with ⟨_, rfl⟩
    -- A body is noted in one table, and the templates and instances stay as they are.
    have hadd : ∀ (c : Cache) (n : String) (fp : UInt64),
        (c.addBody n fp).templates = c.templates ∧ (c.addBody n fp).instances = c.instances := by
      intro c n fp
      unfold Cache.addBody
      cases c.bodies.lookup n <;> exact ⟨rfl, rfl⟩
    have hcache : (s.cache.disambiguate name body).2.1.templates = s.cache.templates ∧
        (s.cache.disambiguate name body).2.1.instances = s.cache.instances := by
      unfold Cache.disambiguate
      cases s.cache.bodies.lookup name with
      | none => exact hadd _ _ _
      | some before =>
          by_cases hfp : before = Text.fingerprint body
          · simp only [if_pos hfp, and_self]
          · simp only [if_neg hfp]
            exact hadd _ _ _
    rw [← hs₃, ← hs₂]
    exact ⟨hcache.1, hcache.2, rfl, rfl⟩
  rcases hrest with ⟨htemplates, hinstances, hstats, hpricing⟩
  refine ⟨hpipeline, ?_, htemplates, hinstances, ?_, .done _ _ hpricing⟩
  · rw [hbodies]
    exact Bodies.note_keeps _ _ _
  · rw [hstats]
    rfl

end Naming

section Buffers

/-- The component of a buffer. -/
def PendingBuffer.component (b : PendingBuffer) : Component :=
  .buffer b.depth b.width

/-- The call site of a buffer. -/
def PendingBuffer.site (b : PendingBuffer) : Site :=
  ⟨b.component, b.channel ++ "_inst", [b.channel, b.target]⟩

/-- The costs of buffers are in the table. -/
theorem bufferCosts_ok (bs : List PendingBuffer) (costs : List Cost) (l l' : Lowering)
    (h : bufferCosts bs l = .ok costs l') : l' = l ∧ List.Forall₂
      (fun b cost => l.session.metrics.lookup b.component.key = some cost) bs costs := by
  induction bs generalizing costs with
  | nil =>
      rcases pure_ok_iff.mp h with ⟨rfl, rfl⟩
      exact ⟨rfl, .nil⟩
  | cons b bs ih =>
      rcases bind_ok_iff.mp h with ⟨cost, l₁, hcost, h₁⟩
      rcases onSession_ok_iff.mp hcost with ⟨t, ht, rfl⟩
      -- Looking costs up changes nothing, so all of them are found in the state at the start.
      rcases requireCost_ok _ _ _ _ ht with ⟨hknown, rfl⟩
      rcases bind_ok_iff.mp h₁ with ⟨rest, l₂, hrest, h₂⟩
      rcases pure_ok_iff.mp h₂ with ⟨rfl, rfl⟩
      rcases ih rest hrest with ⟨rfl, hall⟩
      refine ⟨rfl, .cons ?_ hall⟩
      rw [PendingBuffer.component, Component.key_buffer]
      exact hknown

/-- An entry of the table of costs is still there when a trace was left. -/
theorem Written.lookup_kept {l l' : Lowering} {τ : Trace} (h : Written l l' τ) {key : String}
    {cost : Cost} (hknown : l.session.metrics.lookup key = some cost) :
    l'.session.metrics.lookup key = some cost := by
  have hkept := h.kept [(key, cost)]
  unfold Known at hkept
  simpa using hkept (by simpa using hknown)

/-- Buffers whose costs are in the table are written in order. -/
theorem written_emitBuffers (bs : List PendingBuffer) (costs : List Cost) (u : Unit)
    (l l' : Lowering) (hknown : List.Forall₂
      (fun b cost => l.session.metrics.lookup b.component.key = some cost) bs costs)
    (h : emitBuffers (bs.zip costs) l = .ok u l') :
    Written l l' (.writes (bs.map PendingBuffer.site)) := by
  induction bs generalizing costs l with
  | nil =>
      cases hknown
      rcases pure_ok_iff.mp h with ⟨_, rfl⟩
      exact written_refl l
  | cons b bs ih =>
      cases hknown with
      | @cons _ cost _ costs hb hbs =>
          rcases bind_ok_iff.mp h with ⟨v, l₁, hemit, hrest⟩
          have hone := written_emit b.component (fun _ h => by cases h) (fun _ _ h => by cases h)
            cost _ (Component.key_buffer b.depth b.width).symm v (ask_of_known rfl hb) hemit
          -- The costs of the other buffers were found before this one was written.
          exact hone.append (ih costs l₁ (hbs.imp fun b cost hb => hone.lookup_kept hb) hrest)

end Buffers

section Units

/-- A table of distinct keys answers with every one of its entries. -/
theorem lookup_of_mem {α β : Type} [BEq α] [LawfulBEq α] (table : List (α × β)) (pair : α × β)
    (hnodup : (table.map Prod.fst).Nodup) (hmem : pair ∈ table) :
    table.lookup pair.1 = some pair.2 := by
  rcases List.append_of_mem hmem with ⟨xs, ys, hsplit⟩
  refine List.lookup_eq_some_iff.mpr ⟨xs, ys, hsplit, fun p hp => ?_⟩
  rw [hsplit, List.map_append, List.map_cons] at hnodup
  have hne := (List.nodup_append.mp hnodup).2.2 p.1 (List.mem_map_of_mem hp) pair.1
    List.mem_cons_self
  exact bne_iff_ne.mpr (Ne.symm hne)

/-- Looking up the wires of distinct channels gives them in order. -/
theorem traverse_sourceOf (s : Scope) (sources : List (ChannelId × String))
    (hnodup : (sources.map Prod.fst).Nodup) :
    traverseList (sourceOf s sources) (sources.map Prod.fst) = .ok (sources.map Prod.snd) := by
  -- No channel occurs twice, so looking one up finds its own wire.
  have hfind : ∀ pair ∈ sources, sourceOf s sources pair.1 = .ok pair.2 := by
    intro pair hpair
    unfold sourceOf
    rw [lookup_of_mem sources pair hnodup hpair]
  -- The table stays whole while its entries are passed one after another.
  have hall : ∀ xs : List (ChannelId × String), (∀ pair ∈ xs, pair ∈ sources) →
      traverseList (sourceOf s sources) (xs.map Prod.fst) = .ok (xs.map Prod.snd) := by
    intro xs
    induction xs with
    | nil => exact fun _ => rfl
    | cons pair xs ih =>
        intro hsub
        have htail := ih fun p hp => hsub p (List.mem_cons_of_mem _ hp)
        rw [List.map_cons, traverseList, hfind pair (hsub pair List.mem_cons_self), htail]
        rfl
  exact hall sources fun _ h => h

/-- The call site of the unit of members whose arguments are served by
    `inputs`. -/
def Members.site (ms : Members) (inputs : List String) : Site :=
  ⟨.unit ms.unit, String.intercalate "_" ms.names ++ "_inst", inputs ++ ms.wires⟩

/-- The unit of members is named, priced under its name, and its instance is
    written. The template lists the buffers of the unit, and its text does not. -/
theorem written_unit (ms : Members) (buffers : List BufferedOutput) (inputs : List String)
    (hgraph : ms.builder.graph = ms.unit.graph) (hspelled : ms.unit.Spelled) (name : String)
    (cost : Option Cost) (u : Unit) (l l' : Lowering) (s t : Session)
    (hname : Session.disambiguate ms.unit.name ms.unit.body l.session = .ok name s)
    (hcost : Session.unitCost { ms.unit with name, buffers } ms.builder.graph s = .ok cost t)
    (hemit : emit ⟨name, .func { ms.unit with name, buffers }⟩ cost
      (unitPortCosts { ms.unit with name, buffers } cost)
      ⟨({ ms.unit with name, buffers } : FunctionalUnit).key,
        String.intercalate "_" ms.names ++ "_inst", inputs ++ ms.wires⟩
      { l with session := t } = .ok u l') :
    Written l l' (.writes [ms.site inputs]) := by
  rcases disambiguate_ok _ _ name _ s hname with ⟨_, hbodies, hanswer⟩
  have hnaming : Registered l { l with session := s } [] :=
    registered_nil _ _ (registered_disambiguate _ _ name _ _ hname) rfl rfl rfl rfl
  -- From here on the unit has the name that every later table gives it.
  have hunder : ∀ T, Bodies.Keeps s.cache.bodies T → { ms.unit with name } = ms.unit.under T := by
    intro T hT
    rw [FunctionalUnit.under, hanswer T hT]
  -- The graph of the builder is the one that the component is asked with.
  have hask : (Component.unit { ms.unit with name }).ask s = .ok cost t := by
    rw [hgraph] at hcost
    exact hcost
  have hports : (Component.unit { ms.unit with name }).portCosts cost
      = unitPortCosts { ms.unit with name } cost := by
    cases cost <;> rfl
  -- The template may list buffers that the component leaves open.
  have himplements : ∀ fu, (TemplateBody.func { ms.unit with name, buffers }) = .func fu →
      ∃ gu, Component.unit { ms.unit with name } = .unit gu ∧
        fu = { gu with buffers := fu.buffers } := by
    rintro _ ⟨rfl⟩
    exact ⟨_, rfl, rfl⟩
  have hunit := registered_emit ⟨.unit { ms.unit with name },
    ⟨name, .func { ms.unit with name, buffers }⟩, cost, _, rfl, rfl, hports.symm⟩ _ u
    { l with session := s } l' t hask (fun _ _ h => by cases h) rfl himplements hemit
  have hall := hnaming.append hunit
  -- Asking for the cost does not touch the table of bodies.
  have hcache := (Component.ask_frame _ cost s t hask).1
  rcases emit_ok _ _ _ _ u _ l' hemit with ⟨stats, _, rfl⟩
  have hsame : t.cache.bodies = s.cache.bodies := congrArg Cache.bodies hcache
  refine ⟨List.forall_mem_nil _, rfl, rfl, rfl, rfl, (List.append_nil _).symm,
    hsame.trans hbodies, fun T hT => ?_, ⟨_, hall, fun T hT => ?_⟩,
    fun costs hcosts entry hentry => ?_⟩
  · have hlater : Bodies.Keeps s.cache.bodies T := by
      rw [← hsame]
      exact hT
    simp only [Trace.writes_sites, List.map_cons, List.map_nil, Site.toInstance, Members.site,
      Component.under, ← hunder T hlater]
    rfl
  · have hlater : Bodies.Keeps s.cache.bodies T := by
      rw [← hsame]
      exact hT
    simp only [Trace.writes_sites, List.map_cons, List.map_nil, Members.site, Component.under,
      ← hunder T hlater]
    rfl
  · -- Pricing the unit may add an entry, but changes none.
    have hnow : ({ ms.unit with name } : FunctionalUnit).Spelled := by
      rw [hunder s.cache.bodies (Bodies.Keeps.refl _)]
      exact hspelled.under _
    refine hall.lookup_kept (fun c hc => ?_) entry.1 entry.2 (hcosts entry hentry)
    rw [List.mem_singleton.mp hc]
    exact hnow

/-- Members become their unit, then their buffers. The costs of the buffers are
    looked up before the unit is named and priced, and are still in the table
    when the buffers are written. -/
theorem written_emitUnit (sub : Subject) (sources : List (ChannelId × String)) (ms : Members)
    (hargs : sources.map Prod.fst = ms.builder.args) (hnodup : ms.builder.args.Nodup)
    (hgraph : ms.builder.graph = ms.unit.graph) (hspelled : ms.unit.Spelled) (u : Unit)
    (l l' : Lowering) (h : emitUnit sub sources ms l = .ok u l') :
    Written l l' (.writes
      (ms.site (sources.map Prod.snd) :: ms.buffers.map PendingBuffer.site)) := by
  rcases bind_ok_iff.mp h with ⟨costs, l₁, hcosts, h₁⟩
  rcases bufferCosts_ok ms.buffers costs l l₁ hcosts with ⟨rfl, hknown⟩
  rcases bind_ok_iff.mp h₁ with ⟨name, l₂, hname, h₂⟩
  rcases onSession_ok_iff.mp hname with ⟨s, hs, rfl⟩
  rcases bind_ok_iff.mp h₂ with ⟨cost, l₃, hcost, h₃⟩
  rcases onSession_ok_iff.mp hcost with ⟨t, ht, rfl⟩
  rcases bind_ok_iff.mp h₃ with ⟨inputs, l₄, hinputs, h₄⟩
  -- The wires were served for the arguments of the unit, so they come back in order.
  rw [← hargs, traverse_sourceOf sub.scope sources (by rw [hargs]; exact hnodup)] at hinputs
  rcases lift_ok_iff.mp hinputs with ⟨hserved, rfl⟩
  rw [← Except.ok.inj hserved] at h₄
  rcases bind_ok_iff.mp h₄ with ⟨v, l₅, hemit, hbuffers⟩
  have hunit := written_unit ms _ _ hgraph hspelled name cost v l₁ l₅ s t hs ht hemit
  exact hunit.append (written_emitBuffers ms.buffers costs u l₅ l'
    (hknown.imp fun b c hb => hunit.lookup_kept hb) hbuffers)

end Units

end Lowering

end DataflowCircuit
