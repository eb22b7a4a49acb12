import DataflowCircuit.Proofs.Cost.Pricing
import DataflowCircuit.Proofs.Lowering.Operations

/-!
# Registration

Every call site goes through one step that writes its template and its cost
block if they are new to the run, and counts its cost. This file says what a
run of such steps leaves: the templates and cost blocks it writes are the first
ones with each name and each key, and what the cache has seen are all of them.

A call is a component together with what was registered for it, the template as
it was built and the cost as it was answered. `Registered` ties the states
before and after a step to the calls the step made, for sessions and for states
of lowering. Steps follow one another by
appending their calls, so a statement about a whole run is a statement about
one list of calls, in which a later call may have been left out of the output
and only its key remains.

## Main definitions

* `firsts`, `seenAfter`: The first entries with new keys, and the keys that have
  been seen after a list.
* `Call`: A registration.
* `Component.call`: The call that registers a component as it is.
* `Call.Implements`: The template of a call has the unit of its component.
* `Session.Registered`: The calls between two sessions.
* `Lowering.Registered`: The calls that a step of lowering made.

## Theorems

* `firsts_append`, `nodup_firsts`, `mem_keys_firsts`: What is left of a list.
* `Lowering.register_ok`: What registering does.
* `Lowering.emit_ok`, `Lowering.registered_emit`: Writing an instance is one
  call.
* `Lowering.Registered.append`: Calls of consecutive steps are joined.
-/

namespace DataflowCircuit

section Firsts

variable {α : Type} (key : α → String)

/-- The entries whose keys have not been seen before. -/
def firsts : List String → List α → List α
  | _, [] => []
  | seen, x :: xs =>
    if key x ∈ seen then firsts seen xs else x :: firsts (key x :: seen) xs

/-- The keys that have been seen after a list. -/
def seenAfter : List String → List α → List String
  | seen, [] => seen
  | seen, x :: xs => seenAfter (if key x ∈ seen then seen else key x :: seen) xs

/-- What is left of two lists: the second is read with the keys of the first. -/
theorem firsts_append (seen : List String) (xs ys : List α) :
    firsts key seen (xs ++ ys) = firsts key seen xs ++ firsts key (seenAfter key seen xs) ys := by
  induction xs generalizing seen with
  | nil => rfl
  | cons x xs ih =>
      by_cases hx : key x ∈ seen
      · simp only [List.cons_append, firsts, seenAfter, if_pos hx]
        exact ih seen
      · simp only [List.cons_append, firsts, seenAfter, if_neg hx]
        rw [ih (key x :: seen)]

/-- The keys of two lists are seen one after another. -/
theorem seenAfter_append (seen : List String) (xs ys : List α) :
    seenAfter key seen (xs ++ ys) = seenAfter key (seenAfter key seen xs) ys := by
  induction xs generalizing seen with
  | nil => rfl
  | cons x xs ih => exact ih _

/-- An entry that is left is one of the list. -/
theorem mem_of_mem_firsts (seen : List String) (xs : List α) (x : α)
    (h : x ∈ firsts key seen xs) : x ∈ xs := by
  induction xs generalizing seen with
  | nil => cases h
  | cons y xs ih =>
      by_cases hy : key y ∈ seen
      · simp only [firsts, if_pos hy] at h
        exact List.mem_cons_of_mem y (ih seen h)
      · simp only [firsts, if_neg hy] at h
        rcases List.mem_cons.mp h with rfl | h
        · exact List.mem_cons_self
        · exact List.mem_cons_of_mem y (ih (key y :: seen) h)

/-- The keys that are left are the new ones. -/
theorem mem_keys_firsts (seen : List String) (xs : List α) (k : String) :
    k ∈ (firsts key seen xs).map key ↔ k ∈ xs.map key ∧ k ∉ seen := by
  induction xs generalizing seen with
  | nil => simp [firsts]
  | cons x xs ih =>
      by_cases hx : key x ∈ seen
      · simp only [firsts, if_pos hx, List.map_cons, List.mem_cons, ih]
        constructor
        · exact fun h => ⟨Or.inr h.1, h.2⟩
        · rintro ⟨rfl | h, hk⟩
          · exact absurd hx hk
          · exact ⟨h, hk⟩
      · simp only [firsts, if_neg hx, List.map_cons, List.mem_cons, ih, not_or]
        -- The first key is left, and it is seen by the rest.
        by_cases hk : k = key x
        · simp [hk, hx]
        · simp [hk]

/-- No key is left twice. -/
theorem nodup_firsts (seen : List String) (xs : List α) :
    ((firsts key seen xs).map key).Nodup := by
  induction xs generalizing seen with
  | nil => exact List.nodup_nil
  | cons x xs ih =>
      by_cases hx : key x ∈ seen
      · simp only [firsts, if_pos hx]
        exact ih seen
      · simp only [firsts, if_neg hx, List.map_cons, List.nodup_cons]
        refine ⟨fun h => ?_, ih (key x :: seen)⟩
        exact ((mem_keys_firsts key _ xs (key x)).mp h).2 List.mem_cons_self

end Firsts

/-- A registration: the component of a call site, and what was handed over for it,
    which is the template as it was built, the cost as it was answered, and the
    port costs as they were computed at the call site. The template can differ
    from that of the component in what is not printed. -/
structure Call where
  component : Component
  template : Template
  cost : Option Cost
  ports : List PortCost
  name_eq : template.name = component.template.name
  render_eq : template.render = component.template.render
  ports_eq : ports = component.portCosts cost

namespace Call

/-- The instance key of a call. -/
def key (c : Call) : String :=
  c.component.key

/-- The cost block that a call writes if its key is new. -/
def block (c : Call) : CostBlock :=
  ⟨c.key, c.ports, c.cost⟩

/-- The question that a call had answered. -/
def site (c : Call) : Component × Option Cost :=
  (c.component, c.cost)

/-- The template of a call implements a unit only if its component is that unit,
    but for the buffers, which the template lists. -/
def Implements (c : Call) : Prop :=
  ∀ fu, c.template.body = .func fu →
    ∃ gu, c.component = .unit gu ∧ fu = { gu with buffers := fu.buffers }

/-- The statistics after a call. -/
def count (stats : Statistics) (c : Call) : Except Error Statistics :=
  c.component.count c.cost stats

end Call

/-- A call with the template of its component. -/
def Component.call (c : Component) (cost : Option Cost) : Call :=
  ⟨c, c.template, cost, c.portCosts cost, rfl, rfl, rfl⟩

/-- A component is called with a template that implements it. -/
theorem Component.call_implements (c : Component) (cost : Option Cost) :
    (c.call cost).Implements := by
  intro fu hfu
  cases c with
  | unit gu =>
      cases hfu
      exact ⟨fu, rfl, rfl⟩
  | routing kind pipeline ports widths => cases kind <;> cases hfu
  | _ => cases hfu

/-- Everything that was registered between two sessions are the calls
    `calls`. -/
structure Session.Registered (s s' : Session) (calls : List Call) : Prop where
  pipeline : s'.pipeline = s.pipeline
  bodies : Bodies.Keeps s.cache.bodies s'.cache.bodies
  names : s'.cache.templates
    = seenAfter Template.name s.cache.templates (calls.map Call.template)
  keys : s'.cache.instances = seenAfter CostBlock.key s.cache.instances (calls.map Call.block)
  stats : calls.foldlM Call.count s.stats = .ok s'.stats
  asked : Asked s (calls.map Call.site) s'

/-- Calls of consecutive steps are joined. -/
theorem Session.Registered.append {s t u : Session} {xs ys : List Call}
    (h₁ : Session.Registered s t xs) (h₂ : Session.Registered t u ys) :
    Session.Registered s u (xs ++ ys) where
  pipeline := h₂.pipeline.trans h₁.pipeline
  bodies := h₁.bodies.trans h₂.bodies
  names := by
    rw [h₂.names, h₁.names, List.map_append, seenAfter_append]
  keys := by
    rw [h₂.keys, h₁.keys, List.map_append, seenAfter_append]
  stats := by
    rw [List.foldlM_append, h₁.stats]
    exact h₂.stats
  asked := by
    rw [List.map_append]
    exact h₁.asked.append h₂.asked

/-- A session in which nothing was registered. -/
theorem Session.registered_nil (s s' : Session) (hpipeline : s'.pipeline = s.pipeline)
    (hcache : s'.cache = s.cache) (hstats : s'.stats = s.stats)
    (hpricing : s'.pricing = s.pricing) : Session.Registered s s' [] where
  pipeline := hpipeline
  bodies := by
    rw [hcache]
    exact Bodies.Keeps.refl _
  names := congrArg Cache.templates hcache
  keys := congrArg Cache.instances hcache
  stats := by
    rw [hstats]
    rfl
  asked := .done _ _ hpricing

namespace Lowering

/-- Everything that was registered between two states are the calls `calls`, and
    the output has what is new of it. -/
structure Registered (l l' : Lowering) (calls : List Call) : Prop where
  session : Session.Registered l.session l'.session calls
  templates : l'.out.templates = l.out.templates ++
    firsts Template.name l.session.cache.templates (calls.map Call.template)
  blocks : l'.out.costBlocks = l.out.costBlocks ++
    firsts CostBlock.key l.session.cache.instances (calls.map Call.block)
  sites : (l'.out.copies ++ l'.out.instances).map Instance.key
    = (l.out.copies ++ l.out.instances).map Instance.key ++ calls.map Call.key
  implemented : ∀ call ∈ calls, call.Implements

/-- What is new in the second of two steps is new after the first. -/
theorem Registered.append {l l' l'' : Lowering} {xs ys : List Call} (h₁ : Registered l l' xs)
    (h₂ : Registered l' l'' ys) : Registered l l'' (xs ++ ys) where
  session := h₁.session.append h₂.session
  templates := by
    rw [h₂.templates, h₁.templates, h₁.session.names, List.map_append, firsts_append,
      List.append_assoc]
  blocks := by
    rw [h₂.blocks, h₁.blocks, h₁.session.keys, List.map_append, firsts_append, List.append_assoc]
  sites := by
    rw [h₂.sites, h₁.sites, List.append_assoc, ← List.map_append]
  implemented := List.forall_mem_append.mpr ⟨h₁.implemented, h₂.implemented⟩

/-- A step that changes the session in no way that matters, and the output
    neither. -/
theorem registered_nil (l l' : Lowering) (hsession : Session.Registered l.session l'.session [])
    (htemplates : l'.out.templates = l.out.templates)
    (hblocks : l'.out.costBlocks = l.out.costBlocks) (hcopies : l'.out.copies = l.out.copies)
    (hinstances : l'.out.instances = l.out.instances) : Registered l l' [] where
  session := hsession
  templates := htemplates.trans (List.append_nil _).symm
  blocks := hblocks.trans (List.append_nil _).symm
  sites := by
    rw [hcopies, hinstances]
    exact (List.append_nil _).symm
  implemented := fun _ hcall => absurd hcall List.not_mem_nil

/-- Nothing was registered. -/
theorem registered_refl (l : Lowering) : Registered l l [] :=
  registered_nil l l (Session.registered_nil _ _ rfl rfl rfl rfl) rfl rfl rfl rfl

section Registering

/-- The cache after a template and a key were noted. -/
def noted (c : Cache) (template : Template) (block : CostBlock) : Cache where
  bodies := c.bodies
  templates := seenAfter Template.name c.templates [template]
  instances := seenAfter CostBlock.key c.instances [block]

/-- A template is new exactly if it is a first one. -/
theorem addTemplate_ok (template : Template) (new : Bool) (s s' : Session)
    (h : Session.addTemplate template.name s = .ok new s') :
    (if new then [template] else []) = firsts Template.name s.cache.templates [template] ∧
      s' = { s with cache := { s.cache with
        templates := seenAfter Template.name s.cache.templates [template] } } := by
  have hrun : Session.addTemplate template.name s = .ok (s.cache.addTemplate template.name).1
      { s with cache := (s.cache.addTemplate template.name).2 } := rfl
  rw [hrun] at h
  cases h
  -- The cache and the list decide by the same question.
  by_cases hmem : template.name ∈ s.cache.templates
  · simp [Cache.addTemplate, firsts, seenAfter, hmem]
  · simp [Cache.addTemplate, firsts, seenAfter, hmem]

/-- So is a cost block. -/
theorem addInstance_ok (block : CostBlock) (new : Bool) (s s' : Session)
    (h : Session.addInstance block.key s = .ok new s') :
    (if new then [block] else []) = firsts CostBlock.key s.cache.instances [block] ∧
      s' = { s with cache := { s.cache with
        instances := seenAfter CostBlock.key s.cache.instances [block] } } := by
  have hrun : Session.addInstance block.key s = .ok (s.cache.addInstance block.key).1
      { s with cache := (s.cache.addInstance block.key).2 } := rfl
  rw [hrun] at h
  cases h
  by_cases hmem : block.key ∈ s.cache.instances
  · simp [Cache.addInstance, firsts, seenAfter, hmem]
  · simp [Cache.addInstance, firsts, seenAfter, hmem]

/-- A change of the output that is made on a condition. -/
theorem outputWhen_ok {β : Type} (c : Bool) (f : LoweredProcess → LoweredProcess)
    (k : Unit → Step β) (b : β) (l l' : Lowering)
    (h : (if c = true then output f >>= k else k ()) l = .ok b l') :
    k () { l with out := if c then f l.out else l.out } = .ok b l' := by
  cases c with
  | false => exact h
  | true =>
      rcases bind_ok_iff.mp h with ⟨u, l₁, hout, h⟩
      have hl₁ := modify_ok_iff.mp hout
      rw [← hl₁] at h
      exact h

/-- Counting a cost changes the statistics only. -/
theorem recordCost_ok (key : String) (cost : Cost) (u : Unit) (s s' : Session)
    (h : Session.recordCost key cost s = .ok u s') :
    ∃ stats, s.stats.record key cost = .ok stats ∧ s' = { s with stats } := by
  rcases bind_ok_iff.mp h with ⟨s₀, s₁, hget, h⟩
  rcases get_ok_iff.mp hget with ⟨rfl, rfl⟩
  rcases bind_ok_iff.mp h with ⟨stats, s₂, hlift, h⟩
  rcases lift_ok _ _ _ _ hlift with ⟨hstats, rfl⟩
  exact ⟨stats, hstats, (set_ok_iff.mp h).symm⟩

/-- Registering writes the template and the block if they are new, notes both,
    and counts the cost. -/
theorem register_ok (template : Template) (cost : Option Cost) (ports : List PortCost)
    (key : String) (u : Unit) (l l' : Lowering)
    (h : register template cost ports key l = .ok u l') :
    ∃ stats, (cost.elim (.ok l.session.stats) (l.session.stats.record key)) = .ok stats ∧
      l' = { l with
        session := { l.session with
          cache := noted l.session.cache template ⟨key, ports, cost⟩, stats }
        out := { l.out with
          templates := l.out.templates ++
            firsts Template.name l.session.cache.templates [template]
          costBlocks := l.out.costBlocks ++
            firsts CostBlock.key l.session.cache.instances [⟨key, ports, cost⟩] } } := by
  unfold register at h
  rcases bind_ok_iff.mp h with ⟨new, l₁, hadd, h₁⟩
  rcases onSession_ok_iff.mp hadd with ⟨s₁, hs₁, rfl⟩
  rcases addTemplate_ok template new _ _ hs₁ with ⟨hnew, rfl⟩
  have h₂ := outputWhen_ok _ _ _ _ _ _ h₁
  rcases bind_ok_iff.mp h₂ with ⟨isNew, l₂, hadd', h₃⟩
  rcases onSession_ok_iff.mp hadd' with ⟨s₂, hs₂, rfl⟩
  rcases addInstance_ok ⟨key, ports, cost⟩ isNew _ _ hs₂ with ⟨hisNew, rfl⟩
  have h₄ := outputWhen_ok _ _ _ _ _ _ h₃
  have hisNew : (if isNew then [⟨key, ports, cost⟩] else [])
      = firsts CostBlock.key l.session.cache.instances [⟨key, ports, cost⟩] := hisNew
  rw [← hnew, ← hisNew]
  -- Whether the template and the block were new makes four cases, all alike.
  cases cost with
  | none =>
      rcases pure_ok_iff.mp h₄ with ⟨_, hl'⟩
      refine ⟨l.session.stats, rfl, ?_⟩
      rw [← hl']
      cases new <;> cases isNew <;> simp [noted]
  | some c =>
      rcases onSession_ok_iff.mp h₄ with ⟨s₃, hs₃, hl'⟩
      rcases recordCost_ok key c u _ _ hs₃ with ⟨stats, hstats, rfl⟩
      refine ⟨stats, hstats, ?_⟩
      rw [hl']
      cases new <;> cases isNew <;> simp [noted]

/-- Writing an instance registers it and adds it to the output. -/
theorem emit_ok (template : Template) (cost : Option Cost) (ports : List PortCost)
    (inst : Instance) (u : Unit) (l l' : Lowering)
    (h : emit template cost ports inst l = .ok u l') :
    ∃ stats, (cost.elim (.ok l.session.stats) (l.session.stats.record inst.key)) = .ok stats ∧
      l' = { l with
        session := { l.session with
          cache := noted l.session.cache template ⟨inst.key, ports, cost⟩, stats }
        out := { l.out with
          templates := l.out.templates ++
            firsts Template.name l.session.cache.templates [template]
          costBlocks := l.out.costBlocks ++
            firsts CostBlock.key l.session.cache.instances [⟨inst.key, ports, cost⟩]
          instances := l.out.instances ++ [inst] } } := by
  rcases bind_ok_iff.mp h with ⟨v, l₁, hregister, hout⟩
  rcases register_ok _ _ _ _ v l l₁ hregister with ⟨stats, hstats, rfl⟩
  exact ⟨stats, hstats, (modify_ok_iff.mp hout).symm⟩

/-- A call is asked for from `l`, registered from `l₁` to `l₂`, and its call site
    is written in `l'`. Between the steps nothing that matters changes, but for
    what a copy counts. -/
theorem registered_call (call : Call) (u : Unit) (l l₁ l₂ l' : Lowering) (t : Session)
    (hask : call.component.ask l.session = .ok call.cost t)
    (hpricing : l₁.session.pricing = t.pricing) (hcache : l₁.session.cache = l.session.cache)
    (hpipeline : l₁.session.pipeline = l.session.pipeline) (hout : l₁.out = l.out)
    (hcount : call.count l.session.stats
      = call.cost.elim (.ok l₁.session.stats) (l₁.session.stats.record call.key))
    (hregister : register call.template call.cost call.ports call.key l₁ = .ok u l₂)
    (hsession : l'.session = l₂.session) (htemplates : l'.out.templates = l₂.out.templates)
    (hblocks : l'.out.costBlocks = l₂.out.costBlocks)
    (hsites : (l'.out.copies ++ l'.out.instances).map Instance.key
      = (l₂.out.copies ++ l₂.out.instances).map Instance.key ++ [call.key])
    (himplements : call.Implements) : Registered l l' [call] := by
  rcases register_ok _ _ _ _ u l₁ l₂ hregister with ⟨stats, hstats, hl₂⟩
  -- The cache has noted the call, and asking for the cost did not change it.
  have hcache₂ : l₂.session.cache = noted l.session.cache call.template call.block := by
    rw [hl₂, ← hcache]
    rfl
  refine ⟨⟨?_, ?_, ?_, ?_, ?_, ?_⟩, ?_, ?_, ?_, List.forall_mem_singleton.mpr himplements⟩
  · rw [hsession, hl₂]
    exact hpipeline
  · rw [hsession, hcache₂]
    exact Bodies.Keeps.refl _
  · rw [hsession, hcache₂]
    rfl
  · rw [hsession, hcache₂]
    rfl
  -- The statistics are those after this one call.
  · have hfinal : l'.session.stats = stats := by
      rw [hsession, hl₂]
    rw [List.foldlM_cons, hcount, hstats, hfinal]
    rfl
  · refine .ask _ l.session t _ _ _ [] rfl hask (.done _ _ ?_)
    rw [hsession, hl₂, ← hpricing]
    rfl
  · rw [htemplates, hl₂, ← hout, ← hcache]
    rfl
  · rw [hblocks, hl₂, ← hout, ← hcache]
    rfl
  · rw [hsites, hl₂, ← hout]
    rfl

/-- Writing an instance is one call, if its cost was just asked for. -/
theorem registered_emit (call : Call) (inst : Instance) (u : Unit) (l l' : Lowering) (t : Session)
    (hask : call.component.ask l.session = .ok call.cost t)
    (hcopy : ∀ width reads, call.component ≠ .copy width reads) (hkey : inst.key = call.key)
    (himplements : call.Implements)
    (h : emit call.template call.cost call.ports inst { l with session := t } = .ok u l') :
    Registered l l' [call] := by
  rcases call.component.ask_frame call.cost l.session t hask with ⟨hcache, hstats, hpipeline⟩
  rcases bind_ok_iff.mp h with ⟨v, l₂, hregister, hout⟩
  have hl' := modify_ok_iff.mp hout
  rw [hkey] at hregister
  -- Only a copy counts anything besides its cost.
  have hcount : call.count l.session.stats
      = call.cost.elim (.ok t.stats) (t.stats.record call.key) := by
    unfold Call.count Component.count Call.key
    rw [hstats]
    cases hc : call.component with
    | copy width reads => exact absurd hc (hcopy width reads)
    | _ => cases call.cost <;> rfl
  refine registered_call call v l { l with session := t } l₂ l' t hask rfl hcache hpipeline rfl
    hcount hregister ?_ ?_ ?_ ?_ himplements
  · rw [← hl']
  · rw [← hl']
  · rw [← hl']
  · rw [← hl', ← hkey]
    simp only [List.map_append, List.map_cons, List.map_nil, List.append_assoc]

/-- A cost that was found is found again after calls. -/
theorem Registered.lookup_kept {l l' : Lowering} {calls : List Call} (h : Registered l l' calls)
    (hcalls : ∀ c ∈ calls.map Call.component, c.Spelled) (key : String) (cost : Cost)
    (hknown : l.session.metrics.lookup key = some cost) :
    l'.session.metrics.lookup key = some cost := by
  -- An estimate is stored under the key of a component, so its unit has to be spelled.
  have hsites : ∀ site ∈ calls.map Call.site, site.1.Spelled := by
    intro site hsite
    rcases List.mem_map.mp hsite with ⟨call, hcall, rfl⟩
    exact hcalls _ (List.mem_map_of_mem hcall)
  exact (h.session.asked.learns hsites).1.kept key cost hknown

end Registering

end Lowering

end DataflowCircuit
