import DataflowCircuit.Proofs.Netlist.Registration
import Mathlib.Data.List.Basic
import Mathlib.Tactic.Simps.Basic

/-!
# Traces of Lowering

Lowering works on a session that knows what earlier processes wrote, what
things cost and what was counted. Almost none of that reaches a lowered
process, and this file says what does.

A successful step leaves a trace. It lists what the step asked, with the
answers that it got: which kind of templates is used, which wires serve its
reads, and which fresh names it drew. It also lists what the step wrote, the
channels it declared and its call sites. The trace is what a statement about a
lowered process needs, and it does not mention the session. The one thing a
call site leaves open is the name of a functional unit's template, which is
settled by the table of bodies; `Site.toInstance` takes such a table.

`Written` ties a trace to the states before and after a step. The answers are
those of the first state, and the output of the second state is that of the
first with what was written behind it. It also says that every call site was
registered with the cost that the session has for it. Traces of consecutive
steps are joined, so all of this is shown for single operations and holds of
runs.

## Main definitions

* `Site`, `Site.toInstance`: A call site, and the instance it becomes.
* `Trace`: What a step asked, with the answers, and what it wrote.
* `CopyPlan.Serves`, `NameSupply.Gives`: Reads and requests answered one after
  another.
* `Lowering.Known`: Costs that are in the table.
* `Lowering.Written`: A step left a trace.

## Theorems

* `Written.append`: Traces of consecutive steps are joined.
* `written_quiet`: A step without a call site.
* `written_kind`, `written_serve`, `written_draw`, `written_declare`,
  `written_silent`: The traces of operations.
-/

namespace DataflowCircuit

/-- A call site before its template has its final name: what it is an instance
    of, where a unit has the name its operations spell, and the name and the
    wires of the instance. -/
structure Site where
  component : Component
  label : String
  ports : List String

namespace Site

/-- The unit of a site that has one. -/
def unit? (site : Site) : Option FunctionalUnit :=
  match site.component with
  | .unit fu => some fu
  | _ => none

/-- The instance that a site becomes if `T` is the table of bodies. -/
def toInstance (T : Bodies) (site : Site) : Instance :=
  ⟨(site.component.under T).key, site.label, site.ports⟩

/-- The table of bodies after a site was written. -/
def note (T : Bodies) (site : Site) : Bodies :=
  match site.component with
  | .unit fu => T.note fu.name (Text.fingerprint fu.body)
  | _ => T

/-- Writing a site changes no entry of the table. -/
theorem note_keeps (T : Bodies) (site : Site) : T.Keeps (site.note T) := by
  unfold note
  split
  · exact Bodies.note_keeps T _ _
  · exact Bodies.Keeps.refl T

/-- Writing sites changes no entry of the table. -/
theorem notes_keep (T : Bodies) (sites : List Site) : T.Keeps (sites.foldl note T) := by
  induction sites generalizing T with
  | nil => exact Bodies.Keeps.refl T
  | cons site sites ih => exact (note_keeps T site).trans (ih (site.note T))

end Site

/-- What a step asked, with the answers, and what it wrote. -/
@[ext] structure Trace where
  /-- Are the templates pipelined, each time that was asked. -/
  kinds : List Bool
  /-- The reads that were served, with their wires. -/
  served : List (ChannelId × String)
  /-- The names that were drawn, with what was requested. -/
  drawn : List (NameSupply.Request × String)
  /-- The channels that were introduced. -/
  declared : List ChanDecl
  sites : List Site

namespace Trace

instance : EmptyCollection Trace :=
  ⟨⟨[], [], [], [], []⟩⟩

/-- A trace followed by another. -/
instance : Append Trace :=
  ⟨fun τ τ' => ⟨τ.kinds ++ τ'.kinds, τ.served ++ τ'.served, τ.drawn ++ τ'.drawn,
    τ.declared ++ τ'.declared, τ.sites ++ τ'.sites⟩⟩

/-- The kind of templates was asked for. -/
@[simps] def kind (pipeline : Bool) : Trace :=
  ⟨[pipeline], [], [], [], []⟩

/-- Reads were served. -/
@[simps] def reads (served : List (ChannelId × String)) : Trace :=
  ⟨[], served, [], [], []⟩

/-- A name was drawn. -/
@[simps] def name (request : NameSupply.Request) (name : String) : Trace :=
  ⟨[], [], [(request, name)], [], []⟩

/-- A channel was declared. -/
@[simps] def channel (chan : ChanDecl) : Trace :=
  ⟨[], [], [], [chan], []⟩

/-- Call sites were written. -/
@[simps] def writes (sites : List Site) : Trace :=
  ⟨[], [], [], [], sites⟩

section Fields

variable (τ τ' τ'' : Trace)

@[simp] theorem kinds_append : (τ ++ τ').kinds = τ.kinds ++ τ'.kinds := rfl

@[simp] theorem served_append : (τ ++ τ').served = τ.served ++ τ'.served := rfl

@[simp] theorem drawn_append : (τ ++ τ').drawn = τ.drawn ++ τ'.drawn := rfl

@[simp] theorem declared_append : (τ ++ τ').declared = τ.declared ++ τ'.declared := rfl

@[simp] theorem sites_append : (τ ++ τ').sites = τ.sites ++ τ'.sites := rfl

@[simp] theorem empty_append : (∅ : Trace) ++ τ = τ := rfl

@[simp] theorem append_empty : τ ++ (∅ : Trace) = τ := by
  ext1 <;> exact List.append_nil _

/-- Traces are joined in any grouping. -/
theorem append_assoc : τ ++ τ' ++ τ'' = τ ++ (τ' ++ τ'') := by
  ext1 <;> exact List.append_assoc _ _ _

end Fields

end Trace

/-- Serving the reads `served` one after another leads from a plan to
    another. -/
def CopyPlan.Serves : CopyPlan → List (ChannelId × String) → CopyPlan → Prop
  | p, [], p' => p' = p
  | p, (id, wire) :: rest, p' => ∃ q, p.next id = .ok (wire, q) ∧ q.Serves rest p'

/-- Reads are served one after another. -/
theorem CopyPlan.Serves.append {p q r : CopyPlan} {xs ys : List (ChannelId × String)}
    (h₁ : p.Serves xs q) (h₂ : q.Serves ys r) : p.Serves (xs ++ ys) r := by
  induction xs generalizing p with
  | nil =>
      rw [Serves] at h₁
      rw [← h₁]
      exact h₂
  | cons x xs ih =>
      rcases h₁ with ⟨p₁, hnext, h₁⟩
      exact ⟨p₁, hnext, ih h₁⟩

/-- The reads and the plan say which wires serve them. -/
theorem CopyPlan.Serves.unique {p q q' : CopyPlan} {xs ys : List (ChannelId × String)}
    (h : p.Serves xs q) (h' : p.Serves ys q') (hreads : xs.map Prod.fst = ys.map Prod.fst) :
    xs = ys := by
  induction xs generalizing p ys with
  | nil => exact (List.map_eq_nil_iff.mp hreads.symm).symm
  | cons x xs ih =>
      -- The other list has as many reads, so it has a first one as well.
      cases ys with
      | nil => cases hreads
      | cons y ys =>
          rcases x with ⟨id, wire⟩
          rcases y with ⟨id', wire'⟩
          rw [List.map_cons, List.map_cons, List.cons.injEq] at hreads
          rcases hreads with ⟨hid, hreads⟩
          rcases h with ⟨p₁, hnext, h⟩
          rcases h' with ⟨p₁', hnext', h'⟩
          have hid : id = id' := hid
          subst hid
          -- Both plans serve the same channel next, so the wire and the plan that is left are
          -- the same.
          rw [hnext, Except.ok.injEq, Prod.mk.injEq] at hnext'
          rcases hnext' with ⟨rfl, rfl⟩
          rw [ih h h' hreads]

/-- Answering requests one after another with the names `drawn` leads from a
    supply to another. -/
def NameSupply.Gives : NameSupply → List (Request × String) → NameSupply → Prop
  | ns, [], ns' => ns' = ns
  | ns, (r, name) :: rest, ns' => name = (ns.answer r).1 ∧ (ns.answer r).2.Gives rest ns'

/-- Requests are answered in order, and the supply between two lists of them is
    a supply that is left. -/
theorem NameSupply.gives_append {ns ns' : NameSupply} {xs ys : List (Request × String)} :
    ns.Gives (xs ++ ys) ns' ↔ ∃ mid, ns.Gives xs mid ∧ mid.Gives ys ns' := by
  induction xs generalizing ns with
  | nil =>
      constructor
      · exact fun h => ⟨ns, rfl, h⟩
      · rintro ⟨_, rfl, h⟩
        exact h
  | cons x xs ih =>
      rw [List.cons_append, Gives, ih]
      -- The supply in the middle is the same on both sides; only the parentheses move.
      constructor
      · rintro ⟨hname, mid, hxs, hys⟩
        exact ⟨mid, ⟨hname, hxs⟩, hys⟩
      · rintro ⟨mid, ⟨hname, hxs⟩, hys⟩
        exact ⟨hname, mid, hxs, hys⟩

/-- The requests and their answers say which supply is left. -/
theorem NameSupply.Gives.unique {ns m m' : NameSupply} {drawn : List (Request × String)}
    (h : ns.Gives drawn m) (h' : ns.Gives drawn m') : m = m' := by
  induction drawn generalizing ns with
  | nil => exact Eq.trans h (Eq.symm h')
  | cons x xs ih => exact ih h.2 h'.2

namespace Lowering

/-- The costs that are listed are in the table. -/
def Known (l : Lowering) (costs : List (String × Cost)) : Prop :=
  ∀ entry ∈ costs, l.session.metrics.lookup entry.1 = some entry.2

/-- A step from `l` to `l'` left the trace `τ`. -/
structure Written (l l' : Lowering) (τ : Trace) : Prop where
  kinds : ∀ b ∈ τ.kinds, b = l.session.pipeline
  plan : l.plan.Serves τ.served l'.plan
  names : l.names.Gives τ.drawn l'.names
  ports : l'.out.ports = l.out.ports
  copies : l'.out.copies = l.out.copies
  channels : l'.out.channels = l.out.channels ++ τ.declared
  bodies : l'.session.cache.bodies = τ.sites.foldl Site.note l.session.cache.bodies
  instances : ∀ T, Bodies.Keeps l'.session.cache.bodies T →
    l'.out.instances = l.out.instances ++ τ.sites.map (Site.toInstance T)
  /-- The sites were registered in order, each with the cost that was found. -/
  registered : ∃ calls, Registered l l' calls ∧ ∀ T, Bodies.Keeps l'.session.cache.bodies T →
    calls.map Call.component = τ.sites.map fun site => site.component.under T
  /-- No entry of the table of costs is changed. -/
  kept : ∀ costs, l.Known costs → l'.Known costs

/-- The kind of templates stays the same. -/
theorem Written.pipeline {l l' : Lowering} {τ : Trace} (h : Written l l' τ) :
    l'.session.pipeline = l.session.pipeline := by
  rcases h.registered with ⟨_, hcalls, _⟩
  exact hcalls.session.pipeline

/-- No entry of the table of bodies is changed. -/
theorem Written.keeps {l l' : Lowering} {τ : Trace} (h : Written l l' τ) :
    Bodies.Keeps l.session.cache.bodies l'.session.cache.bodies := by
  rw [h.bodies]
  exact Site.notes_keep _ _

/-- Traces of consecutive steps are joined. The sites of the first step keep
    their names because the second step changes no entry of the table. -/
theorem Written.append {l l' l'' : Lowering} {τ τ' : Trace} (h : Written l l' τ)
    (h' : Written l' l'' τ') : Written l l'' (τ ++ τ') where
  kinds := by
    intro b hb
    -- The second step asks the session that the first one leaves, which uses the same kind.
    rcases List.mem_append.mp hb with hb | hb
    · exact h.kinds b hb
    · exact (h'.kinds b hb).trans h.pipeline
  plan := h.plan.append h'.plan
  names := NameSupply.gives_append.mpr ⟨l'.names, h.names, h'.names⟩
  ports := h'.ports.trans h.ports
  copies := h'.copies.trans h.copies
  channels := by
    rw [h'.channels, h.channels, List.append_assoc, Trace.declared_append]
  bodies := by
    rw [Trace.sites_append, List.foldl_append, ← h.bodies, ← h'.bodies]
  instances := by
    intro T hT
    -- A table that keeps the entries of the last state keeps those of the state in between.
    rw [h'.instances T hT, h.instances T (h'.keeps.trans hT), Trace.sites_append, List.map_append,
      List.append_assoc]
  registered := by
    rcases h.registered with ⟨xs, hxs, hcs⟩
    rcases h'.registered with ⟨ys, hys, hds⟩
    refine ⟨xs ++ ys, hxs.append hys, fun T hT => ?_⟩
    rw [List.map_append, hcs T (h'.keeps.trans hT), hds T hT, Trace.sites_append, List.map_append]
  kept := fun costs hcosts => h'.kept costs (h.kept costs hcosts)

section Operations

variable {l l' : Lowering} {τ : Trace}

/-- A step that writes no call site, and changes nothing in the session that
    lowering looks at. -/
theorem written_quiet (hsites : τ.sites = []) (hkinds : ∀ b ∈ τ.kinds, b = l.session.pipeline)
    (hplan : l.plan.Serves τ.served l'.plan) (hnames : l.names.Gives τ.drawn l'.names)
    (hout : l'.out = { l.out with channels := l.out.channels ++ τ.declared })
    (hpipeline : l'.session.pipeline = l.session.pipeline)
    (hcache : l'.session.cache = l.session.cache) (hstats : l'.session.stats = l.session.stats)
    (hpricing : l'.session.pricing = l.session.pricing) : Written l l' τ where
  kinds := hkinds
  plan := hplan
  names := hnames
  ports := by rw [hout]
  copies := by rw [hout]
  channels := by rw [hout]
  bodies := by rw [hsites, hcache, List.foldl_nil]
  instances := fun T _ => by rw [hsites, hout, List.map_nil, List.append_nil]
  registered := by
    -- Nothing was written, so no call was registered.
    refine ⟨[], registered_nil _ _ (Session.registered_nil _ _ hpipeline hcache hstats hpricing)
      ?_ ?_ ?_ ?_, fun T _ => by rw [hsites]; rfl⟩ <;> rw [hout]
  kept := by
    intro costs hcosts entry hentry
    -- The table of costs is part of the pricing, which did not change.
    rw [← hcosts entry hentry]
    exact congrArg (fun p : Pricing => p.metrics.lookup entry.1) hpricing

/-- An output to which no channel is added. -/
theorem out_append_nil (out : LoweredProcess) :
    out = { out with channels := out.channels ++ [] } := by
  rw [List.append_nil]

variable (l)

/-- A step of the session that leaves alone what lowering looks at. -/
theorem written_silent (s : Session) (hpipeline : s.pipeline = l.session.pipeline)
    (hcache : s.cache = l.session.cache) (hstats : s.stats = l.session.stats)
    (hpricing : s.pricing = l.session.pricing) : Written l { l with session := s } ∅ :=
  written_quiet rfl (List.forall_mem_nil _) rfl rfl (out_append_nil _) hpipeline hcache hstats
    hpricing

/-- Nothing was asked and nothing written. -/
theorem written_refl : Written l l ∅ :=
  written_silent l l.session rfl rfl rfl rfl

/-- Asking for the kind of templates changes nothing. -/
theorem written_kind : Written l l (.kind l.session.pipeline) :=
  written_quiet rfl (List.forall_mem_singleton.mpr rfl) rfl rfl (out_append_nil _) rfl rfl rfl rfl

/-- A read is served by the plan. -/
theorem written_serve (id : ChannelId) (wire : String) (plan : CopyPlan)
    (h : l.plan.next id = .ok (wire, plan)) :
    Written l { l with plan } (.reads [(id, wire)]) :=
  written_quiet rfl (List.forall_mem_nil _) ⟨plan, h, rfl⟩ rfl (out_append_nil _) rfl rfl rfl rfl

/-- A name is drawn from the supply. -/
theorem written_draw (request : NameSupply.Request) :
    Written l { l with names := (l.names.answer request).2 }
      (.name request (l.names.answer request).1) :=
  written_quiet rfl (List.forall_mem_nil _) rfl ⟨rfl, rfl⟩ (out_append_nil _) rfl rfl rfl rfl

/-- A channel is declared behind the others. -/
theorem written_declare (chan : ChanDecl) :
    Written l { l with out := { l.out with channels := l.out.channels ++ [chan] } }
      (.channel chan) :=
  written_quiet rfl (List.forall_mem_nil _) rfl rfl rfl rfl rfl rfl rfl

end Operations

end Lowering

end DataflowCircuit
