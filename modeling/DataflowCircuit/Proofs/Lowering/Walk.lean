import DataflowCircuit.Proofs.Lowering.Emission

/-!
# Walks over Lowering

What is known of lowering is known because it is put together from a few
operations, and everything that follows a lowering function through its
sequences, loops and cases would follow it in the same way. This file is the one
place that does. A lowering function is walked over once, and what a walk
establishes is collected in `Walk`.

A walk establishes two things. Every run that succeeds leaves a trace, which the
postcondition describes, and the trace is that of the states before and after the
run. And every property of steps that holds of the operations, and carries over
to sequences, holds of the function: that a step keeps the entries of a table, or
that it can be taken again. `Carried Q` lists the operations that such a property
has to hold of. What a unit is called and what it costs is the one part of a
session that reaches a call site, so naming and pricing a unit is not on the
list, and it is enough that `Q` holds of writing a unit as a whole.

Most costs are looked up before anything is written and needed afterwards. The
costs that were found are therefore handed along: they are in the table, and stay
there.

The rules give a postcondition to the rest of a sequence, and a walk is read from
front to back: whatever the first part asked for or wrote is put in front of the
trace of the rest.

## Main definitions

* `Carried`: A property of the operations that carries over to sequences.
* `CarriesUnits`: A property of writing units.
* `Walk`: What a walk over a step establishes.

## Theorems

* `Walk.of_ok`: What a walk says of a run.
* `Walk.pure`, `Walk.throw`, `Walk.bind`, `Walk.mono`: Sequences.
* `Walk.lift`, `Walk.onBuilder`, `Walk.guard`, `Walk.get`: What decides how a
  step goes on.
* `Walk.serve`, `Walk.draw`, `Walk.declareChannel`, `Walk.unread`: The
  operations that write no call site.
* `Walk.require`, `Walk.emit`, `Walk.source`, `Walk.emitUnit`: Costs and call
  sites.
* `Walk.wires`: The reads of an element.
-/

namespace DataflowCircuit

namespace Lowering

/-- A property of steps that carries over to sequences and holds of the operations
    that lowering is made of, except for the naming and the pricing of units. -/
structure Carried (Q : (α : Type) → Step α → Prop) : Prop where
  pure : ∀ {α : Type} (a : α), Q α (pure a)
  throw : ∀ {α : Type} (e : Error), Q α (throw e)
  bind : ∀ {α β : Type} {m : Step α} {k : α → Step β} (P : α → Prop), Q α m →
    (∀ l a l', m l = .ok a l' → P a) → (∀ a, P a → Q β (k a)) → Q β (m >>= k)
  /-- Of the state, a step may only ask for the kind of templates. -/
  get : ∀ {β : Type} {k : Lowering → Step β},
    (∀ l l', l.session.pipeline = l'.session.pipeline → k l = k l') →
      (∀ l, Q β (k l)) → Q β (get >>= k)
  serve : ∀ id, Q String (serve id)
  draw : ∀ request, Q String (draw request)
  declare : ∀ name width, Q Unit (declareChannel name width)
  unread : ∀ channel element, Q Unit (onSession (Session.warn [.neverRead channel element]))
  require : ∀ key, Q Cost (onSession (Session.requireCost key))
  source : ∀ value width, Q Cost (onSession (sourceCost value width))
  recordCopy : ∀ width outputs, Q Unit (onSession (Session.recordCopy width outputs))
  register : ∀ template cost ports key, Q Unit (register template cost ports key)
  addInstance : ∀ inst,
    Q Unit (output fun out => { out with instances := out.instances ++ [inst] })
  addCopy : ∀ inst, Q Unit (output fun out => { out with copies := out.copies ++ [inst] })

/-- A property of writing the units of elements. -/
def CarriesUnits (Q : (α : Type) → Step α → Prop) : Prop :=
  ∀ (sub : Subject) (sources : List (ChannelId × String)) (ms : Members)
    (el : Element ChannelId Expr), ms.builder.graph = ms.unit.graph →
    el.unit? sub.scope = some ms.unit → Q Unit (emitUnit sub sources ms)

namespace Carried

variable {Q : (α : Type) → Step α → Prop} (h : Carried Q) {α β : Type} {m : Step α}
  {k : α → Step β}

include h

/-- A sequence of which the second part does not care what the first returned. -/
theorem seq (hm : Q α m) (hk : ∀ a, Q β (k a)) : Q β (m >>= k) :=
  h.bind (fun _ => True) hm (fun _ _ _ _ => trivial) fun a _ => hk a

/-- A lifted result is a result or a failure. -/
theorem lift (x : Except Error α) : Q α (Lowering.lift x) := by
  cases x with
  | ok a => exact h.pure a
  | error e => exact h.throw e

/-- Writing an instance is registering it and appending it. -/
theorem emit (template : Template) (cost : Option Cost) (ports : List PortCost)
    (inst : Instance) : Q Unit (emit template cost ports inst) :=
  h.seq (h.register template cost ports inst.key) fun _ => h.addInstance inst

end Carried

/-- What a walk over `m` establishes, from a state that has the costs `known`. -/
structure Walk (known : List (String × Cost)) {α : Type} (m : Step α)
    (P : α → Trace → Prop) : Prop where
  /-- A result has a trace that is as described. -/
  traced : ∀ l a l', m l = .ok a l' → ∃ τ, P a τ
  /-- Such a trace is left between the states of a run. -/
  written : ∀ l a l', l.Known known → m l = .ok a l' → ∃ τ, P a τ ∧ Written l l' τ
  carried : ∀ Q, Carried Q → CarriesUnits Q → Q α m

/-- Costs that were found are still in the table when a trace was left. -/
theorem Known.cons {l : Lowering} {known : List (String × Cost)} (h : l.Known known) {key : String}
    {cost : Cost} (hcost : l.session.metrics.lookup key = some cost) :
    l.Known ((key, cost) :: known) :=
  List.forall_mem_cons.mpr ⟨hcost, h⟩

namespace Walk

variable {known : List (String × Cost)} {α β : Type} {m : Step α} {k : α → Step β} {a : α}
  {P P' : α → Trace → Prop} {Q : β → Trace → Prop}

/-- A run left a trace that is as described, if no cost is taken to be known. -/
theorem of_ok (h : Walk [] m P) {l l' : Lowering} (hrun : m l = .ok a l') :
    ∃ τ, P a τ ∧ Written l l' τ :=
  h.written l a l' (List.forall_mem_nil _) hrun

section Sequences

/-- A postcondition may be weakened. -/
theorem mono (h : Walk known m P) (himp : ∀ a τ, P a τ → P' a τ) : Walk known m P' where
  traced := fun l a l' hrun => (h.traced l a l' hrun).imp (himp a)
  written := fun l a l' hl hrun =>
    (h.written l a l' hl hrun).imp fun τ hτ => ⟨himp a τ hτ.1, hτ.2⟩
  carried := h.carried

/-- Nothing is asked and nothing written. -/
theorem pure (h : P a ∅) : Walk known (pure a) P where
  traced := by
    intro l b l' hrun
    rcases pure_ok_iff.mp hrun with ⟨rfl, _⟩
    exact ⟨∅, h⟩
  written := by
    intro l b l' _ hrun
    rcases pure_ok_iff.mp hrun with ⟨rfl, rfl⟩
    exact ⟨∅, h, written_refl l⟩
  carried := fun _ hQ _ => hQ.pure a

/-- A step that fails has no result to describe. -/
theorem throw (e : Error) : Walk known (throw e) P where
  traced := fun _ _ _ hrun => (throw_ok_iff.mp hrun).elim
  written := fun _ _ _ _ hrun => (throw_ok_iff.mp hrun).elim
  carried := fun _ hQ _ => hQ.throw e

/-- The trace of a sequence is that of its first part, and then that of the rest,
    which may depend on the first. -/
theorem bind (hm : Walk known m P)
    (hk : ∀ a τ, P a τ → Walk known (k a) fun b τ' => Q b (τ ++ τ')) :
    Walk known (m >>= k) Q where
  traced := by
    intro l b l'' hrun
    rcases bind_ok_iff.mp hrun with ⟨a, l', hl, hrest⟩
    rcases hm.traced l a l' hl with ⟨τ, ha⟩
    rcases (hk a τ ha).traced l' b l'' hrest with ⟨τ', hb⟩
    exact ⟨τ ++ τ', hb⟩
  written := by
    intro l b l'' hknown hrun
    rcases bind_ok_iff.mp hrun with ⟨a, l', hl, hrest⟩
    rcases hm.written l a l' hknown hl with ⟨τ, ha, hτ⟩
    rcases (hk a τ ha).written l' b l'' (hτ.kept known hknown) hrest with ⟨τ', hb, hτ'⟩
    exact ⟨τ ++ τ', hb, hτ.append hτ'⟩
  carried := by
    intro R hR hunits
    -- What the property is told of the first result is that it has a trace.
    refine hR.bind (fun a => ∃ τ, P a τ) (hm.carried R hR hunits) hm.traced ?_
    rintro a ⟨τ, ha⟩
    exact (hk a τ ha).carried R hR hunits

end Sequences

section Decisions

/-- A lifted result goes on if it is one. -/
theorem lift {x : Except Error α} (hk : ∀ a, x = .ok a → Walk known (k a) Q) :
    Walk known (lift x >>= k) Q := by
  cases x with
  | ok a =>
      -- The successful result is a pure step, and its trace is empty.
      have hdone : Walk known (Lowering.lift (.ok a)) fun b τ => b = a ∧ τ = ∅ := pure ⟨rfl, rfl⟩
      refine hdone.bind ?_
      rintro _ _ ⟨rfl, rfl⟩
      exact hk _ rfl
  | error e => exact (throw e (P := fun _ _ => False)).bind fun _ _ h => h.elim

/-- A step of the builder goes on with what it returns. -/
theorem onBuilder {step : UnitBuilder.Step α} {b : UnitBuilder} {k : α × UnitBuilder → Step β}
    (hk : ∀ a b', step b = .ok a b' → Walk known (k (a, b')) Q) :
    Walk known (onBuilder step b >>= k) Q := by
  unfold Lowering.onBuilder
  cases hstep : step b with
  | ok a b' => exact hk a b' hstep
  | error e b' => exact (throw e (P := fun _ _ => False)).bind fun _ _ h => h.elim

/-- A check that throws if `c` holds. -/
theorem guard {c : Prop} [Decidable c] {e : Error} {k : PUnit → Step β}
    (hk : ¬ c → Walk known (k PUnit.unit) Q) :
    Walk known (if c then MonadExcept.throw e >>= k else k PUnit.unit) Q := by
  by_cases hc : c
  · rw [if_pos hc]
    exact (throw e (P := fun _ _ => False)).bind fun _ _ h => h.elim
  · rw [if_neg hc]
    exact hk hc

/-- Of the state, a step asks for the kind of templates. -/
theorem get {k : Lowering → Step β}
    (hcongr : ∀ l l', l.session.pipeline = l'.session.pipeline → k l = k l')
    (hk : ∀ l, Walk known (k l) fun b τ => Q b (.kind l.session.pipeline ++ τ)) :
    Walk known (get >>= k) Q where
  traced := by
    intro l b l' hrun
    rcases (hk l).traced l b l' hrun with ⟨τ, hb⟩
    exact ⟨_, hb⟩
  written := by
    intro l b l' hknown hrun
    rcases (hk l).written l b l' hknown hrun with ⟨τ, hb, hτ⟩
    -- Asking is written in front of what the rest leaves.
    exact ⟨_, hb, (written_kind l).append hτ⟩
  carried := fun R hR hunits => hR.get hcongr fun l => (hk l).carried R hR hunits

end Decisions

section Operations

/-- A read leaves its wire. -/
theorem serve (id : ChannelId) :
    Walk known (serve id) fun wire τ => τ = .reads [(id, wire)] where
  traced := fun _ _ _ _ => ⟨_, rfl⟩
  written := by
    intro l wire l' _ hrun
    rcases serve_ok_iff.mp hrun with ⟨plan, hnext, rfl⟩
    exact ⟨_, rfl, written_serve l id wire plan hnext⟩
  carried := fun _ hQ _ => hQ.serve id

/-- A request leaves its name. -/
theorem draw (request : NameSupply.Request) :
    Walk known (draw request) fun name τ => τ = .name request name where
  traced := fun _ _ _ _ => ⟨_, rfl⟩
  written := by
    intro l name l' _ hrun
    rcases draw_ok_iff.mp hrun with ⟨rfl, rfl⟩
    exact ⟨_, rfl, written_draw l request⟩
  carried := fun _ hQ _ => hQ.draw request

/-- A declaration leaves its channel. -/
theorem declareChannel (name : String) (width : Nat) :
    Walk known (declareChannel name width) fun _ τ => τ = .channel ⟨name, .int width⟩ where
  traced := fun _ _ _ _ => ⟨_, rfl⟩
  written := by
    intro l u l' _ hrun
    rw [declareChannel_ok_iff.mp hrun]
    exact ⟨_, rfl, written_declare l _⟩
  carried := fun _ hQ _ => hQ.declare name width

/-- Reporting a channel that nobody reads leaves no trace. -/
theorem unread (channel element : String) :
    Walk known (onSession (Session.warn [.neverRead channel element])) fun _ τ => τ = ∅ where
  traced := fun _ _ _ _ => ⟨_, rfl⟩
  written := by
    intro l u l' _ hrun
    rcases onSession_ok_iff.mp hrun with ⟨s, hs, rfl⟩
    -- Warnings are not among what lowering looks at.
    rw [← modify_ok_iff.mp hs]
    exact ⟨_, rfl, written_silent l _ rfl rfl rfl rfl⟩
  carried := fun _ hQ _ => hQ.unread channel element

/-- A cost that was found is known to the rest. -/
theorem require {key : String} {k : Cost → Step β}
    (hk : ∀ cost, Walk ((key, cost) :: known) (k cost) Q) :
    Walk known (onSession (Session.requireCost key) >>= k) Q where
  traced := by
    intro l b l' hrun
    rcases bind_ok_iff.mp hrun with ⟨cost, l₁, _, hrest⟩
    exact (hk cost).traced l₁ b l' hrest
  written := by
    intro l b l' hknown hrun
    rcases bind_ok_iff.mp hrun with ⟨cost, l₁, hcost, hrest⟩
    rcases onSession_ok_iff.mp hcost with ⟨s, hs, rfl⟩
    -- A cost that is required is looked up and the session stays the same.
    rcases requireCost_ok _ _ _ _ hs with ⟨hlook, rfl⟩
    exact (hk cost).written l b l' (hknown.cons hlook) hrest
  carried := fun Q hQ hunits => hQ.seq (hQ.require key) fun cost => (hk cost).carried Q hQ hunits

/-- An instance whose cost is known. -/
theorem emit {c : Component} {cost : Cost} {inst : Instance} (hc : c.isRequired = true)
    (hcopy : ∀ width reads, c ≠ .copy width reads) (hknown : (c.key, cost) ∈ known)
    (hkey : inst.key = c.key) :
    Walk known (emit c.template (some cost) (c.portCosts (some cost)) inst)
      fun _ τ => τ = .writes [⟨c, inst.name, inst.ports⟩] := by
  refine ⟨fun _ _ _ _ => ⟨_, rfl⟩, ?_, fun _ hQ _ => hQ.emit _ _ _ _⟩
  intro l u l' hl hrun
  -- A unit is not required, so the template of this component has its final name.
  have hunit : ∀ fu, c ≠ .unit fu := by
    rintro fu rfl
    cases hc
  have hcost : l.session.metrics.lookup c.key = some cost := hl (c.key, cost) hknown
  exact ⟨_, rfl, written_emit c hunit hcopy cost inst hkey u (ask_of_known hc hcost) hrun⟩

/-- A source, whose cost may be that of its width. -/
theorem source (value width : Nat) (name : String) (ports : List String) :
    Walk known (onSession (sourceCost value width) >>= fun cost =>
        Lowering.emit ⟨"source", .source⟩ (some cost) [⟨"x", cost.delay, cost.energy⟩]
          ⟨sourceKey value width, name, ports⟩)
      fun _ τ => τ = .writes [⟨.source value width, name, ports⟩] where
  traced := fun _ _ _ _ => ⟨_, rfl⟩
  written := by
    intro l u l' _ hrun
    rcases bind_ok_iff.mp hrun with ⟨cost, l₁, hcost, hemit⟩
    rcases onSession_ok_iff.mp hcost with ⟨s, hs, rfl⟩
    -- Looking up the cost of a source leaves the session alone, whichever key has it.
    have hsame := (sourceCost_ok value width cost _ s hs).2
    rw [hsame] at hs hemit
    -- This is what asking for the cost of the component does.
    have hask : (Component.source value width).ask l.session = .ok (some cost) l.session :=
      bind_ok_iff.mpr ⟨cost, l.session, hs, rfl⟩
    exact ⟨_, rfl, written_emit (.source value width) (fun _ h => by cases h)
      (fun _ _ h => by cases h) cost _ (Component.key_source value width).symm u hask hemit⟩
  carried := fun _ hQ _ => hQ.seq (hQ.source value width) fun _ => hQ.emit _ _ _ _

/-- The unit of an element. -/
theorem emitUnit {sub : Subject} {sources : List (ChannelId × String)} {ms : Members}
    {el : Element ChannelId Expr} (hargs : sources.map Prod.fst = ms.builder.args)
    (hnodup : ms.builder.args.Nodup) (hgraph : ms.builder.graph = ms.unit.graph)
    (hunit : el.unit? sub.scope = some ms.unit) :
    Walk known (emitUnit sub sources ms) fun _ τ =>
      τ = .writes (ms.site (sources.map Prod.snd) :: ms.buffers.map PendingBuffer.site) where
  traced := fun _ _ _ _ => ⟨_, rfl⟩
  written := by
    intro l u l' _ hrun
    -- The name of the unit is spelled by its operations, because it is the unit of an element.
    have hspelled := spelled_of_unit? sub.scope el _ hunit
    exact ⟨_, rfl, written_emitUnit sub sources ms hargs hnodup hgraph hspelled u l l' hrun⟩
  carried := fun _ _ hunits => hunits sub sources ms el hgraph hunit

end Operations

section Reads

/-- Reads are served in order. -/
theorem serveAll (ids : List ChannelId) :
    Walk known (serveAll ids) fun served τ => served.map Prod.fst = ids ∧ τ = .reads served := by
  induction ids with
  | nil => exact pure ⟨rfl, rfl⟩
  | cons id ids ih =>
      refine (serve id).bind ?_
      rintro wire _ rfl
      refine ih.bind ?_
      rintro served _ ⟨rfl, rfl⟩
      -- The first read is in front of the others, as it was asked.
      exact pure ⟨rfl, by rw [Trace.append_empty]; rfl⟩

/-- The wires of an element serve its reads in order. -/
theorem wires (el : Element ChannelId Expr) :
    Walk known (wires el) fun ws τ => ∃ served : List (ChannelId × String),
      served.map Prod.fst = el.reads ∧ ws = served.map Prod.snd ∧ τ = .reads served := by
  refine (serveAll el.reads).bind ?_
  rintro served _ ⟨hids, rfl⟩
  exact pure ⟨served, hids, rfl, Trace.append_empty _⟩

end Reads

end Walk

end Lowering

end DataflowCircuit
