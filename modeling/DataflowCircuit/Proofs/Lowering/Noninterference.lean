import DataflowCircuit.Proofs.Lowering.Closure
import DataflowCircuit.Proofs.Lowering.Repetition

/-!
# What Earlier Processes Cannot Influence

Processes of a run share a session, and what one leaves behind in it decides for
the next which templates are new, which cost blocks are written, what a unit is
called and what the counts are. This file shows that nothing else gets through.
Two sessions with the same kind of templates and the same answers about costs
lower a process alike, whatever else is in them: with the same error, or to the
same names, ports, channels, aliases, copies and instances, except that the name
of a template may have the hash of its body added.

The statement includes the errors, so it has to be about both outcomes of a step,
and `Parallel` runs a step from two states at once. It would be false without an
exception. The statistics of the two sessions can differ, and a sum of one of
them can leave its range, which ends that run wherever it is. After an overflow
nothing is said of the other run.

Sessions with an estimator are left out, because its answers may depend on the
requests before, and a unit that has another name is asked for again.

## Main definitions

* `Together`, `Parallel`: Outcomes and steps that go together.
* `Session.Alike`: Sessions with the same answers.
* `SameUpToHash`: Keys that differ in a hash at most.
* `LoweredProcess.Alike`, `Lowering.Alike`: What is the same of two runs.

## Theorems

* `parallel_bind`: Sequences of steps that go together go together.
* `parallel_register`: Writing templates and costs does not tell runs apart.
* `parallel_emitUnit`: A unit differs in its name only.
* `carried_parallel`: Everything else is the same.
* `earlier_processes_do_not_interfere`: Sessions with the same answers lower a
  process alike.
-/

namespace DataflowCircuit

section Rules

variable {σ α β α' β' : Type}

/-- Outcomes that go together: results that are related, in states that are
    alike, or the same error. After an overflow nothing is said of the other
    outcome. -/
inductive Together (A : σ → σ → Prop) (R : α → β → Prop) :
    EStateM.Result Error σ α → EStateM.Result Error σ β → Prop where
  | ok (a : α) (b : β) (s t : σ) (hR : R a b) (hA : A s t) : Together A R (.ok a s) (.ok b t)
  | error (e : Error) (s t : σ) : Together A R (.error e s) (.error e t)
  | first (s : σ) (r : EStateM.Result Error σ β) : Together A R (.error .costOverflow s) r
  | second (r : EStateM.Result Error σ α) (t : σ) : Together A R r (.error .costOverflow t)

/-- Steps whose outcomes from states that are alike go together. -/
def Parallel (A : σ → σ → Prop) (m : EStateM Error σ α) (n : EStateM Error σ β)
    (R : α → β → Prop) : Prop :=
  ∀ s t, A s t → Together A R (m s) (n t)

variable {A : σ → σ → Prop} {m : EStateM Error σ α} {n : EStateM Error σ β} {R : α → β → Prop}
  {S : α' → β' → Prop}

/-- Results that are related are returned from states that are alike. -/
theorem parallel_pure (a : α) (b : β) (h : R a b) :
    Parallel A (pure a : EStateM Error σ α) (pure b) R :=
  fun s t hst => .ok a b s t h hst

/-- Both steps fail with the same error. -/
theorem parallel_throw (e : Error) :
    Parallel A (throw e : EStateM Error σ α) (throw e : EStateM Error σ β) R :=
  fun s t _ => .error e s t

/-- Both states are changed, and stay alike. -/
theorem parallel_modify (f g : σ → σ) (h : ∀ s t, A s t → A (f s) (g t)) :
    Parallel A (modify f : EStateM Error σ PUnit) (modify g) Eq :=
  fun s t hst => .ok () () (f s) (g t) rfl (h s t hst)

/-- Steps that go together, and go on together. -/
theorem parallel_bind {k : α → EStateM Error σ α'} {l : β → EStateM Error σ β'}
    (hm : Parallel A m n R) (hk : ∀ a b, R a b → Parallel A (k a) (l b) S) :
    Parallel A (m >>= k) (n >>= l) S := by
  intro s t hst
  have hfirst := hm s t hst
  rw [bind_apply, bind_apply]
  generalize m s = r at hfirst ⊢
  generalize n t = q at hfirst ⊢
  -- An error ends both runs, and an overflow in one of them excuses the other.
  cases hfirst with
  | ok a b s' t' hR hA => exact hk a b hR s' t' hA
  | error e s' t' => exact .error e s' t'
  | first s' r => exact .first s' _
  | second r t' => exact .second _ t'

/-- What holds of every result of a step may be added. -/
theorem Parallel.post (hm : Parallel A m n R) (P : α → Prop)
    (hpost : ∀ s a s', m s = .ok a s' → P a) : Parallel A m n fun a b => R a b ∧ P a := by
  intro s t hst
  have hfirst := hm s t hst
  have hresult := hpost s
  generalize m s = r at hfirst hresult ⊢
  generalize n t = q at hfirst ⊢
  cases hfirst with
  | ok a b s' t' hR hA => exact .ok a b s' t' ⟨hR, hresult a s' rfl⟩ hA
  | error e s' t' => exact .error e s' t'
  | first s' r => exact .first s' _
  | second r t' => exact .second _ t'

end Rules

section Sessions

/-- Sessions with the same kind of templates and the same answers about costs. -/
structure Session.Alike (s t : Session) : Prop where
  pipeline : s.pipeline = t.pipeline
  lookup : ∀ key, s.metrics.lookup key = t.metrics.lookup key
  unestimated : s.estimator = none ∧ t.estimator = none

open Session (Alike)

/-- A cost that is required is the same in both. -/
theorem parallel_requireCost (key : String) :
    Parallel Alike (Session.requireCost key) (Session.requireCost key) Eq := by
  intro s t hst
  -- An answer depends on the lookup alone.
  have hsame : s.metrics.require key = t.metrics.require key := by
    unfold MetricsTable.require
    rw [hst.lookup key]
  rw [requireCost_run, requireCost_run, hsame]
  cases t.metrics.require key with
  | ok cost => exact .ok cost cost s t rfl hst
  | error e => exact .error e s t

/-- So is the cost of a source. -/
theorem parallel_sourceCost (value width : Nat) :
    Parallel Alike (Lowering.sourceCost value width) (Lowering.sourceCost value width) Eq := by
  intro s t hst
  unfold Lowering.sourceCost
  rw [get_bind_apply, get_bind_apply, hst.lookup (Lowering.sourceKey value width)]
  -- The specific key is tried first and has the same answer in both.
  cases t.metrics.lookup (Lowering.sourceKey value width) with
  | some cost => exact .ok cost cost s t rfl hst
  | none => exact parallel_requireCost _ s t hst

/-- Whether a template is new is not the same in both. -/
theorem parallel_addTemplate (name name' : String) :
    Parallel Alike (Session.addTemplate name) (Session.addTemplate name') fun _ _ => True :=
  fun _ _ hst => .ok _ _ _ _ trivial ⟨hst.pipeline, hst.lookup, hst.unestimated⟩

/-- Nor is whether a cost block is new. -/
theorem parallel_addInstance (key key' : String) :
    Parallel Alike (Session.addInstance key) (Session.addInstance key') fun _ _ => True :=
  fun _ _ hst => .ok _ _ _ _ trivial ⟨hst.pipeline, hst.lookup, hst.unestimated⟩

/-- The name of a body is plain or has its hash added. -/
theorem parallel_disambiguate (name body : String) :
    Parallel Alike (Session.disambiguate name body) (Session.disambiguate name body)
      fun a b => ∀ answer ∈ [a, b],
        answer = name ∨ answer = Cache.hashedName name (Text.fingerprint body) := by
  -- What a table holds decides between two answers, and there is no third one.
  have hanswer : ∀ c : Cache, (c.disambiguate name body).1 = name ∨
      (c.disambiguate name body).1 = Cache.hashedName name (Text.fingerprint body) := by
    intro c
    unfold Cache.disambiguate
    cases c.bodies.lookup name with
    | none => exact Or.inl rfl
    | some before =>
        dsimp only
        split
        · exact Or.inl rfl
        · exact Or.inr rfl
  intro s t hst
  refine .ok (s.cache.disambiguate name body).1 (t.cache.disambiguate name body).1 _ _ ?_
    ⟨hst.pipeline, hst.lookup, hst.unestimated⟩
  rw [List.forall_mem_cons, List.forall_mem_singleton]
  exact ⟨hanswer s.cache, hanswer t.cache⟩

/-- A unit may be priced differently, because its name may differ. -/
theorem parallel_unitCost (fu gu : FunctionalUnit) (graph : CostGraph) :
    Parallel Alike (Session.unitCost fu graph) (Session.unitCost gu graph) fun _ _ => True := by
  intro s t hst
  rcases Lowering.unitCost_answers fu graph s hst.unestimated.1 with ⟨ws, hs⟩
  rcases Lowering.unitCost_answers gu graph t hst.unestimated.2 with ⟨ws', ht⟩
  rw [hs, ht]
  exact .ok _ _ _ _ trivial ⟨hst.pipeline, hst.lookup, hst.unestimated⟩

/-- A cost is counted, or a sum leaves its range. -/
theorem recordCost_counts (key : String) (cost : Cost) (s : Session) :
    (∃ stats, Session.recordCost key cost s = .ok () { s with stats }) ∨
      Session.recordCost key cost s = .error .costOverflow s := by
  rw [Lowering.recordCost_run]
  cases hrecord : s.stats.record key cost with
  | ok stats => exact Or.inl ⟨stats, rfl⟩
  | error e =>
      rw [s.stats.record_error key cost e hrecord]
      exact Or.inr rfl

end Sessions

section Outputs

/-- Keys that are the same up to a hash behind the name of the template. -/
def SameUpToHash (k k' : String) : Prop :=
  ∃ (name params : String) (fp : UInt64), '<' ∉ name.toList ∧ ∀ key ∈ [k, k'],
    key = name ++ "<" ++ params ++ ">" ∨ key = Cache.hashedName name fp ++ "<" ++ params ++ ">"

/-- Instances that differ in a hash at most. -/
structure Instance.Alike (a b : Instance) : Prop where
  key : a.key = b.key ∨ SameUpToHash a.key b.key
  name : a.name = b.name
  ports : a.ports = b.ports

/-- An instance differs in nothing from itself. -/
theorem Instance.Alike.refl (a : Instance) : a.Alike a :=
  ⟨Or.inl rfl, rfl, rfl⟩

/-- Lowered processes that differ in the hashes of templates, and in which templates
    and costs they bring along. -/
structure LoweredProcess.Alike (a b : LoweredProcess) : Prop where
  name : a.name = b.name
  ports : a.ports = b.ports
  channels : a.channels = b.channels
  aliases : a.aliases = b.aliases
  copies : a.copies = b.copies
  instances : List.Forall₂ Instance.Alike a.instances b.instances

/-- A lowered process differs in nothing from itself. -/
theorem LoweredProcess.Alike.refl (a : LoweredProcess) : a.Alike a :=
  ⟨rfl, rfl, rfl, rfl, rfl, List.forall₂_same.mpr fun i _ => .refl i⟩

namespace Lowering

/-- States in which the same is lowered next. -/
structure Alike (l k : Lowering) : Prop where
  session : l.session.Alike k.session
  plan : l.plan = k.plan
  names : l.names = k.names
  out : l.out.Alike k.out

variable {α β : Type} {R : α → β → Prop}

/-- Steps of sessions that go together. -/
theorem parallel_onSession {m : Session.Step α} {n : Session.Step β}
    (h : Parallel Session.Alike m n R) : Parallel Alike (onSession m) (onSession n) R := by
  intro l k hlk
  have hsession := h l.session k.session hlk.session
  unfold onSession
  generalize m l.session = r at hsession ⊢
  generalize n k.session = q at hsession ⊢
  cases hsession with
  | ok a b s t hR hA => exact .ok a b _ _ hR ⟨hA, hlk.plan, hlk.names, hlk.out⟩
  | error e s t => exact .error e _ _
  | first s r => exact .first _ _
  | second r t => exact .second _ _

/-- A lifted result is the same in both. -/
theorem parallel_lift (x : Except Error α) : Parallel Alike (lift x) (lift x) Eq := by
  cases x with
  | ok a => exact parallel_pure a a rfl
  | error e => exact parallel_throw e

/-- Both plans serve a read alike. -/
theorem parallel_serve (id : ChannelId) : Parallel Alike (serve id) (serve id) Eq := by
  intro l k hlk
  unfold serve
  rw [get_bind_apply, get_bind_apply, hlk.plan]
  cases k.plan.next id with
  | error e => exact .error e l k
  | ok served =>
      -- Both runs go on with the same plan.
      have hafter : Alike { l with plan := served.2 } { k with plan := served.2 } :=
        ⟨hlk.session, rfl, hlk.names, hlk.out⟩
      exact .ok served.1 served.1 _ _ rfl hafter

/-- And both supplies make the same names. -/
theorem parallel_draw (request : NameSupply.Request) :
    Parallel Alike (draw request) (draw request) Eq :=
  fun l k hlk => .ok _ _ { l with names := (l.names.answer request).2 }
    { k with names := (k.names.answer request).2 } (by rw [hlk.names])
    ⟨hlk.session, hlk.plan, by rw [hlk.names], hlk.out⟩

/-- Changing the outputs. -/
theorem parallel_output (f g : LoweredProcess → LoweredProcess)
    (h : ∀ a b, a.Alike b → (f a).Alike (g b)) : Parallel Alike (output f) (output g) Eq :=
  parallel_modify _ _ fun _ _ hlk => ⟨hlk.session, hlk.plan, hlk.names, h _ _ hlk.out⟩

/-- A change of the outputs that is made in one run and not in the other, of what
    the runs may differ in. -/
theorem parallel_outputWhen (c c' : Bool) (f g : LoweredProcess → LoweredProcess)
    (h : ∀ a b, a.Alike b → (f a).Alike b ∧ a.Alike (g b) ∧ (f a).Alike (g b))
    {k : PUnit → Step α} {k' : PUnit → Step β} (hk : Parallel Alike (k ⟨⟩) (k' ⟨⟩) R) :
    Parallel Alike (if c = true then output f >>= k else k ⟨⟩)
      (if c' = true then output g >>= k' else k' ⟨⟩) R := by
  intro l m hlm
  rcases h _ _ hlm.out with ⟨hf, hg, hfg⟩
  -- Either run may have written it before, so all four cases occur.
  cases c <;> cases c'
  · exact hk l m hlm
  · exact hk l { m with out := g m.out } ⟨hlm.session, hlm.plan, hlm.names, hg⟩
  · exact hk { l with out := f l.out } m ⟨hlm.session, hlm.plan, hlm.names, hf⟩
  · exact hk { l with out := f l.out } { m with out := g m.out }
      ⟨hlm.session, hlm.plan, hlm.names, hfg⟩

/-- A step that counts and does nothing else, unless a sum leaves its range. -/
def Counts (m : Step Unit) : Prop :=
  ∀ l, (∃ stats, m l = .ok () { l with session := { l.session with stats } }) ∨
    ∃ k, m l = .error .costOverflow k

/-- Counting a cost does nothing else. -/
theorem counts_cost (key : String) (cost : Option Cost) :
    Counts (match cost with
      | some cost => onSession (Session.recordCost key cost)
      | none => return ()) := by
  intro l
  cases cost with
  | none => exact Or.inl ⟨l.session.stats, rfl⟩
  | some cost =>
      unfold onSession
      rcases recordCost_counts key cost l.session with ⟨stats, hrun⟩ | hrun
      · simp only [hrun]
        exact Or.inl ⟨stats, rfl⟩
      · simp only [hrun]
        exact Or.inr ⟨_, rfl⟩

/-- Counts are not compared. -/
theorem parallel_counts {m n : Step Unit} (hm : Counts m) (hn : Counts n) :
    Parallel Alike m n Eq := by
  intro l k hlk
  -- The sums are not the same, so either one may leave its range on its own.
  rcases hm l with ⟨stats, hl⟩ | ⟨l', hl⟩
  · rcases hn k with ⟨stats', hk⟩ | ⟨k', hk⟩
    · rw [hl, hk]
      refine .ok () () _ _ rfl ⟨?_, hlk.plan, hlk.names, hlk.out⟩
      exact ⟨hlk.session.pipeline, hlk.session.lookup, hlk.session.unestimated⟩
    · rw [hk]
      exact .second _ _
  · rw [hl]
    exact .first _ _

/-- Writing templates and costs does not tell runs apart. -/
theorem parallel_register (template template' : Template) (cost cost' : Option Cost)
    (ports ports' : List PortCost) (key key' : String) :
    Parallel Alike (register template cost ports key)
      (register template' cost' ports' key') Eq := by
  -- Which templates and costs a process brings along is not compared.
  have htemplates : ∀ (xs ys : List Template) (a b : LoweredProcess), a.Alike b →
      ({ a with templates := xs } : LoweredProcess).Alike { b with templates := ys } :=
    fun _ _ _ _ h => ⟨h.name, h.ports, h.channels, h.aliases, h.copies, h.instances⟩
  have hblocks : ∀ (xs ys : List CostBlock) (a b : LoweredProcess), a.Alike b →
      ({ a with costBlocks := xs } : LoweredProcess).Alike { b with costBlocks := ys } :=
    fun _ _ _ _ h => ⟨h.name, h.ports, h.channels, h.aliases, h.copies, h.instances⟩
  unfold register
  refine parallel_bind (parallel_onSession (parallel_addTemplate _ _)) fun new new' _ => ?_
  refine parallel_outputWhen new new' _ _
    (fun a b h => ⟨htemplates _ b.templates a b h, htemplates a.templates _ a b h,
      htemplates _ _ a b h⟩) ?_
  refine parallel_bind (parallel_onSession (parallel_addInstance _ _)) fun new new' _ => ?_
  refine parallel_outputWhen new new' _ _
    (fun a b h => ⟨hblocks _ b.costBlocks a b h, hblocks a.costBlocks _ a b h,
      hblocks _ _ a b h⟩) ?_
  exact parallel_counts (counts_cost key cost) (counts_cost key' cost')

/-- Instances that are alike are added to both outputs. -/
theorem parallel_addSite (inst inst' : Instance) (h : inst.Alike inst') :
    Parallel Alike (output fun out => { out with instances := out.instances ++ [inst] })
      (output fun out => { out with instances := out.instances ++ [inst'] }) Eq :=
  parallel_output _ _ fun _ _ hout => ⟨hout.name, hout.ports, hout.channels, hout.aliases,
    hout.copies, List.rel_append hout.instances (.cons h .nil)⟩

/-- Writing an instance, of a template that is not the same in both runs. -/
theorem parallel_emit (template template' : Template) (cost cost' : Option Cost)
    (ports ports' : List PortCost) (inst inst' : Instance) (h : inst.Alike inst') :
    Parallel Alike (emit template cost ports inst) (emit template' cost' ports' inst') Eq :=
  parallel_bind (parallel_register _ _ _ _ _ _ _ _) fun _ _ _ => parallel_addSite inst inst' h

/-- Everything but the naming and the pricing of units is the same in both runs. -/
theorem carried_parallel : Carried fun _ m => Parallel Alike m m Eq where
  pure := fun a => parallel_pure a a rfl
  throw := parallel_throw
  -- What a walk knows of the first result, it knows in both runs.
  bind := fun P hm hpost hk => parallel_bind (hm.post P hpost) fun a b hab => by
    rcases hab with ⟨rfl, ha⟩
    exact hk a ha
  -- Sessions that are alike have the same kind of templates.
  get := fun {β k} hsame hk l k' hlk => by
    rw [get_bind_apply, get_bind_apply, hsame l k' hlk.session.pipeline]
    exact hk k' l k' hlk
  serve := parallel_serve
  draw := parallel_draw
  declare := fun name width => parallel_output _ _ fun _ _ hout => ⟨hout.name, hout.ports,
    by rw [hout.channels], hout.aliases, hout.copies, hout.instances⟩
  unread := fun _ _ => parallel_onSession (parallel_modify _ _ fun _ _ hst =>
    ⟨hst.pipeline, hst.lookup, hst.unestimated⟩)
  require := fun key => parallel_onSession (parallel_requireCost key)
  source := fun value width => parallel_onSession (parallel_sourceCost value width)
  recordCopy := fun _ _ => parallel_onSession (parallel_modify _ _ fun _ _ hst =>
    ⟨hst.pipeline, hst.lookup, hst.unestimated⟩)
  register := fun template cost ports key => parallel_register _ _ _ _ _ _ _ _
  addInstance := fun inst => parallel_addSite inst inst (.refl inst)
  addCopy := fun inst => parallel_output _ _ fun _ _ hout => ⟨hout.name, hout.ports,
    hout.channels, hout.aliases, by rw [hout.copies], hout.instances⟩

/-- A unit differs in its name only. -/
theorem parallel_emitUnit : CarriesUnits fun _ m => Parallel Alike m m Eq := by
  intro sub sources ms el _ hunit
  have hspelled := spelled_of_unit? sub.scope el _ hunit
  refine parallel_bind (carried_parallel.bufferCosts ms.buffers) fun costs costs' hcosts => ?_
  subst hcosts
  -- From here on the unit has a name in each run, and they may differ.
  refine parallel_bind (parallel_onSession (parallel_disambiguate _ _)) fun name name' hnames => ?_
  refine parallel_bind (parallel_onSession (parallel_unitCost _ _ _)) fun cost cost' _ => ?_
  refine parallel_bind (parallel_lift _) fun inputs inputs' hinputs => ?_
  subst hinputs
  refine parallel_bind (parallel_emit _ _ _ _ _ _ _ _ ⟨Or.inr ?_, rfl, rfl⟩) fun _ _ _ =>
    carried_parallel.emitBuffers _
  -- The parameters of the key do not depend on what the template is called.
  refine ⟨ms.unit.name, String.intercalate "," (ms.unit.params.map toString),
    Text.fingerprint ms.unit.body, hspelled.name_toList.2, ?_⟩
  rw [List.forall_mem_cons, List.forall_mem_singleton] at hnames ⊢
  -- Either answer is one of the two spellings.
  have hkey : ∀ answer : String, answer = ms.unit.name ∨
      answer = Cache.hashedName ms.unit.name (Text.fingerprint ms.unit.body) →
      ({ ms.unit with name := answer } : FunctionalUnit).key
        = ms.unit.name ++ "<" ++ String.intercalate "," (ms.unit.params.map toString) ++ ">" ∨
      ({ ms.unit with name := answer } : FunctionalUnit).key
        = Cache.hashedName ms.unit.name (Text.fingerprint ms.unit.body) ++ "<"
          ++ String.intercalate "," (ms.unit.params.map toString) ++ ">" := by
    rintro answer (rfl | rfl)
    · exact Or.inl rfl
    · exact Or.inr rfl
  exact ⟨hkey name hnames.1, hkey name' hnames.2⟩

end Lowering

end Outputs

/-- Lowering a process in sessions that are alike. -/
theorem parallel_lowerProcess (p : Process) :
    Parallel Session.Alike (lowerProcess p) (lowerProcess p) LoweredProcess.Alike := by
  intro s t hst
  unfold lowerProcess
  -- Reads are counted and copies are planned without a session.
  cases UseCounts.collect p with
  | error e => exact .error e s t
  | ok uses =>
      dsimp only
      cases CopyPlan.plan p.scope uses with
      | error e => exact .error e s t
      | ok plan =>
          have hcarried := Lowering.carried_parallel
          have hrun := hcarried.seq (hcarried.lowerCopies plan.copies) fun _ =>
            hcarried.lowerElements Lowering.parallel_emitUnit ⟨p, uses⟩ p.elements
          have hends := hrun ⟨s, plan, .ofNames p.scope.names, p.declarations⟩
            ⟨t, plan, .ofNames p.scope.names, p.declarations⟩ ⟨hst, rfl, rfl, .refl _⟩
          dsimp only
          generalize (Lowering.lowerCopies plan.copies >>= fun _ =>
            Lowering.lowerElements ⟨p, uses⟩ p.elements)
              (⟨s, plan, .ofNames p.scope.names, p.declarations⟩ : Lowering) = r at hends ⊢
          generalize (Lowering.lowerCopies plan.copies >>= fun _ =>
            Lowering.lowerElements ⟨p, uses⟩ p.elements)
              (⟨t, plan, .ofNames p.scope.names, p.declarations⟩ : Lowering) = q at hends ⊢
          -- The outputs are alike in the states that the runs end in.
          cases hends with
          | ok _ _ l k _ hlk => exact .ok l.out k.out l.session k.session hlk.out hlk.session
          | error e l k => exact .error e l.session k.session
          | first l r => exact .first l.session _
          | second r k => exact .second _ k.session

/-- What was lowered before decides nothing but what is shared. In two sessions
    without an estimator that have the same kind of templates and the same costs,
    a process is lowered alike, unless a sum of the statistics of one of them leaves
    its range: with the same error, or with the same names, ports, channels, aliases
    and copies, and with the same instances up to hashes in the names of templates. -/
theorem earlier_processes_do_not_interfere (p : Process) (s t : Session)
    (hpipeline : s.pipeline = t.pipeline)
    (hlookup : ∀ key, s.metrics.lookup key = t.metrics.lookup key)
    (hnone : s.estimator = none ∧ t.estimator = none) :
    (∃ s', lowerProcess p s = .error .costOverflow s') ∨
    (∃ t', lowerProcess p t = .error .costOverflow t') ∨
    (∃ e s' t', lowerProcess p s = .error e s' ∧ lowerProcess p t = .error e t') ∨
    ∃ a b s' t', lowerProcess p s = .ok a s' ∧ lowerProcess p t = .ok b t' ∧
      a.name = b.name ∧ a.ports = b.ports ∧ a.channels = b.channels ∧
      a.aliases = b.aliases ∧ a.copies = b.copies ∧
      List.Forall₂ (fun i j : Instance => i.name = j.name ∧ i.ports = j.ports ∧
        (i.key = j.key ∨ SameUpToHash i.key j.key)) a.instances b.instances := by
  have hends := parallel_lowerProcess p s t ⟨hpipeline, hlookup, hnone⟩
  generalize lowerProcess p s = r at hends ⊢
  generalize lowerProcess p t = q at hends ⊢
  cases hends with
  | first s' q => exact Or.inl ⟨s', rfl⟩
  | second r t' => exact Or.inr (Or.inl ⟨t', rfl⟩)
  | error e s' t' => exact Or.inr (Or.inr (Or.inl ⟨e, s', t', rfl, rfl⟩))
  | ok a b s' t' hab hst =>
      refine Or.inr (Or.inr (Or.inr ⟨a, b, s', t', rfl, rfl, hab.name, hab.ports, hab.channels,
        hab.aliases, hab.copies, hab.instances.imp fun i j hij => ?_⟩))
      exact ⟨hij.name, hij.ports, hij.key⟩

/-- A cluster gets its plain name in a new session. Where an earlier process has
    taken the name for another body, the hash of its own body is added, and that is
    all. -/
theorem taken_name_adds_only_a_hash :
    let p : Process := ⟨"p", ⟨[⟨"a", .int 8, .port .input, 0⟩, ⟨"v", .int 8, .port .output, 1⟩,
        ⟨"w", .int 8, .port .output, 2⟩]⟩,
      [.cluster [⟨.var 0, none, some 1⟩, ⟨.var 0, none, some 2⟩]]⟩
    let s : Session := Session.start false .empty
    let t : Session := { s with
      cache := ⟨[("func_port_8_p0_port_8_p1", 0)], ["func_port_8_p0_port_8_p1"], []⟩
      stats := s.stats.recordCopy 8 2 }
    ∃ a b s' t', lowerProcess p s = .ok a s' ∧ lowerProcess p t = .ok b t' ∧
      a.instances.map Instance.key = ["func_port_8_p0_port_8_p1<8,8,8,8,8>"] ∧
      b.instances.map Instance.key = ["func_port_8_p0_port_8_p1_h77050375fd71cac2<8,8,8,8,8>"] ∧
      a.instances.map Instance.ports = b.instances.map Instance.ports ∧ a.copies = b.copies := by
  intro p s t
  have hrun : (match lowerProcess p s, lowerProcess p t with
      | .ok a _, .ok b _ => some (a.instances.map Instance.key, b.instances.map Instance.key)
      | _, _ => none) = some (["func_port_8_p0_port_8_p1<8,8,8,8,8>"],
        ["func_port_8_p0_port_8_p1_h77050375fd71cac2<8,8,8,8,8>"]) := by decide +kernel
  have hends := earlier_processes_do_not_interfere p s t rfl (fun _ => rfl) ⟨rfl, rfl⟩
  rcases hends with ⟨s', hs⟩ | ⟨t', ht⟩ | ⟨e, s', t', hs, ht⟩ |
    ⟨a, b, s', t', hs, ht, _, _, _, _, hcopies, hinstances⟩
  · rw [hs] at hrun
    cases hrun
  · rw [ht] at hrun
    cases hs : lowerProcess p s <;> rw [hs] at hrun <;> cases hrun
  · rw [hs] at hrun
    cases hrun
  · rw [hs, ht] at hrun
    simp only [Option.some.injEq, Prod.mk.injEq] at hrun
    refine ⟨a, b, s', t', hs, ht, hrun.1, hrun.2, ?_, hcopies⟩
    rw [← List.forall₂_eq_eq_eq, List.forall₂_map_left_iff, List.forall₂_map_right_iff]
    exact hinstances.imp fun i j hij => hij.2.1

end DataflowCircuit
