import DataflowCircuit.Compile.Command
import DataflowCircuit.Proofs.Cost.Replay
import DataflowCircuit.Proofs.Lowering.Closure

/-!
# Lowering a Process Twice

A process that is lowered a second time in one session is not lowered in the
session that it was lowered in first: names have been given, templates and cost
blocks written, and costs learned, some of them by the process itself. None of
this changes what it is lowered to. A name that was given is given again, because
the table of bodies already holds the answer. What was written is not written
again, so there is nothing new in the output. What was estimated is in the table
and what had no cost still has none, for the same reason.

Only the statistics change, since every instance counts each time it is written.
What is counted is the same both times, and a sum that leaves its range is the
one way for the second run to fail.

The argument is about single steps. A step is taken again in a session that has
grown from its end, which may be much later: what the steps after it wrote does
not matter, as long as nothing was taken back. `Repeats` says so, and it is closed
in the sense of `Lowering.Closed`.

## Main definitions

* `Count`, `Statistics.countAll`: What is counted.
* `Grown`: A session that has written and knows all that another one has.
* `Lowering.again`: A state in another session, in which nothing is new.
* `Lowering.Repeats`: A step that can be taken again.

## Theorems

* `Lowering.repeats_bind`: A sequence is repeated if its parts are.
* `Lowering.disambiguate_again`: A name is given again without a note.
* `Lowering.repeats_unitCost`: A unit is priced again without a request.
* `Lowering.repeats_register`: What was registered is only counted.
* `Lowering.closed_repeats`: Every operation is repeated.
* `second_lowering_only_counts`: So is a process.
-/

namespace DataflowCircuit

section Counting

/-- Something that is counted. -/
inductive Count where
  | cost (key : String) (cost : Cost)
  | copy (width outputs : Nat)

/-- The statistics after something was counted. -/
def Statistics.count (stats : Statistics) : Count → Except Error Statistics
  | .cost key cost => stats.record key cost
  | .copy width outputs => .ok (stats.recordCopy width outputs)

/-- The statistics after some things were counted in order. -/
def Statistics.countAll (stats : Statistics) (counts : List Count) : Except Error Statistics :=
  counts.foldlM Statistics.count stats

/-- Counting goes on where it stopped. -/
theorem Statistics.countAll_append (stats : Statistics) (xs ys : List Count) :
    stats.countAll (xs ++ ys) = stats.countAll xs >>= fun stats => stats.countAll ys :=
  List.foldlM_append

/-- A single count is that count. -/
theorem Statistics.countAll_single (stats : Statistics) (c : Count) :
    stats.countAll [c] = stats.count c := by
  unfold countAll
  rw [List.foldlM_cons]
  cases stats.count c <;> rfl

/-- Counting a cost only fails if a sum leaves its range. -/
theorem Statistics.record_error (stats : Statistics) (key : String) (cost : Cost) (e : Error)
    (h : stats.record key cost = .error e) : e = .costOverflow := by
  -- Both sums are kept in tallies, and adding to a tally fails in one way.
  have hadd : ∀ (t : Tally) n e, t.add key n = .error e → e = .costOverflow := by
    intro t n e hadd
    induction t with
    | nil => cases hadd
    | cons entry rest ih =>
        rw [Tally.add] at hadd
        split at hadd
        · split at hadd
          · cases hadd
          · cases hadd
            rfl
        · cases hrest : Tally.add key n rest with
          | ok t =>
              rw [hrest] at hadd
              cases hadd
          | error e' =>
              rw [hrest] at hadd
              cases hadd
              exact ih hrest
  unfold record at h
  cases harea : stats.area.add key cost.area with
  | error e' =>
      rw [harea] at h
      cases h
      exact hadd _ _ _ harea
  | ok area =>
      rw [harea] at h
      cases hleak : stats.leakage.add key cost.leakage with
      | error e' =>
          rw [hleak] at h
          cases h
          exact hadd _ _ _ hleak
      | ok leakage =>
          rw [hleak] at h
          cases h

end Counting

section Growing

/-- A session that has written and knows all that `s` has and knows. -/
structure Grown (s u : Session) : Prop where
  pipeline : u.pipeline = s.pipeline
  bodies : Bodies.Keeps s.cache.bodies u.cache.bodies
  templates : s.cache.templates ⊆ u.cache.templates
  instances : s.cache.instances ⊆ u.cache.instances
  learns : Learns s u

variable {s t u : Session}

/-- A session whose cache did not change has grown if it has learned. -/
theorem Grown.of_learns (hpipeline : u.pipeline = s.pipeline) (hcache : u.cache = s.cache)
    (hlearns : Learns s u) : Grown s u where
  pipeline := hpipeline
  bodies := by
    rw [hcache]
    exact Bodies.Keeps.refl _
  templates := by
    rw [hcache]
    exact List.Subset.refl _
  instances := by
    rw [hcache]
    exact List.Subset.refl _
  learns := hlearns

/-- Neither statistics nor warnings matter. -/
theorem Grown.of_eq (hpipeline : u.pipeline = s.pipeline) (hcache : u.cache = s.cache)
    (hpricing : u.pricing = s.pricing) : Grown s u :=
  .of_learns hpipeline hcache
    (.of_eq (congrArg Pricing.metrics hpricing) (congrArg Pricing.estimator hpricing))

/-- A session has grown from itself. -/
theorem Grown.refl (s : Session) : Grown s s :=
  .of_eq rfl rfl rfl

/-- Growing goes on. -/
theorem Grown.trans (h : Grown s t) (h' : Grown t u) : Grown s u where
  pipeline := h'.pipeline.trans h.pipeline
  bodies := h.bodies.trans h'.bodies
  templates := List.Subset.trans h.templates h'.templates
  instances := List.Subset.trans h.instances h'.instances
  learns := h.learns.trans h'.learns

end Growing

/-- A lowered process without the templates and cost blocks that it brings
    along. -/
def LoweredProcess.bare (out : LoweredProcess) : LoweredProcess :=
  { out with templates := [], costBlocks := [] }

namespace Lowering

/-- A state of lowering in another session, in which nothing that is written is
    new. -/
def again (u : Session) (l : Lowering) : Lowering :=
  { l with session := u, out := l.out.bare }

/-- From `u` on, a step gives `a` and ends as in `l'`, but for what is counted. It
    fails if and only if a count does. -/
def EndsAgain {α : Type} (a : α) (l' : Lowering) (counts : List Count) (u : Session)
    (r : EStateM.Result Error Lowering α) : Prop :=
  (∃ stats ws, u.stats.countAll counts = .ok stats ∧
    r = .ok a (l'.again { u with stats, warnings := u.warnings ++ ws })) ∨
  ∃ e l, u.stats.countAll counts = .error e ∧ r = .error .costOverflow l

/-- A step that is taken again in every session that has grown from its end. -/
def Repeats {α : Type} (m : Step α) : Prop :=
  ∀ l a l', m l = .ok a l' → Grown l.session l'.session ∧
    ∃ counts, l.session.stats.countAll counts = .ok l'.session.stats ∧
      ∀ u, Grown l'.session u → EndsAgain a l' counts u (m (l.again u))

section Rules

variable {α β : Type} {m : Step α} {k : α → Step β}

/-- A step that sees neither the session nor what is new in it. -/
theorem repeats_of_commutes (hm : ∀ u, Commutes (again u) m)
    (hsession : ∀ l a l', m l = .ok a l' → l'.session = l.session) : Repeats m := by
  intro l a l' hrun
  rw [hsession l a l' hrun]
  refine ⟨.refl _, [], rfl, fun u _ => Or.inl ⟨u.stats, [], rfl, ?_⟩⟩
  rw [hm u l, hrun, List.append_nil]
  rfl

/-- Nothing is written. -/
theorem repeats_pure (a : α) : Repeats (pure a) :=
  repeats_of_commutes (fun _ => commutes_pure a) fun l b l' h => by
    rw [(pure_ok_iff.mp h).2]

/-- A step that fails has nothing to repeat. -/
theorem repeats_throw (e : Error) : Repeats (throw e : Step α) :=
  fun _ _ _ h => (throw_ok_iff.mp h).elim

/-- A sequence. What the second part has written by the end, the session has when
    the first part is taken again. -/
theorem repeats_bind (Q : α → Prop) (hm : Repeats m) (hpost : ∀ l a l', m l = .ok a l' → Q a)
    (hk : ∀ a, Q a → Repeats (k a)) : Repeats (m >>= k) := by
  intro l b l'' hrun
  rcases bind_ok_iff.mp hrun with ⟨a, l', hfirst, hrest⟩
  rcases hm l a l' hfirst with ⟨hgrown, xs, hxs, hagain⟩
  rcases hk a (hpost l a l' hfirst) l' b l'' hrest with ⟨hgrown', ys, hys, hagain'⟩
  refine ⟨hgrown.trans hgrown', xs ++ ys, ?_, fun u hu => ?_⟩
  · rw [Statistics.countAll_append, hxs]
    exact hys
  · -- What is counted is counted in two parts, and either part may leave its range.
    have hcount := u.stats.countAll_append xs ys
    rcases hagain u (hgrown'.trans hu) with ⟨stats, ws, hstats, hfirst'⟩ | ⟨e, t, he, hfirst'⟩
    · rw [hstats] at hcount
      rcases hagain' { u with stats, warnings := u.warnings ++ ws } (hu.trans (.of_eq rfl rfl rfl))
        with ⟨stats', ws', hstats', hrest'⟩ | ⟨e, t, he, hrest'⟩
      · refine Or.inl ⟨stats', ws ++ ws', hcount.trans hstats', ?_⟩
        rw [← List.append_assoc]
        exact bind_ok_iff.mpr ⟨a, _, hfirst', hrest'⟩
      · exact Or.inr ⟨e, t, hcount.trans he,
          bind_error_iff.mpr (Or.inr ⟨a, _, hfirst', hrest'⟩)⟩
    · rw [he] at hcount
      exact Or.inr ⟨e, t, hcount, bind_error_iff.mpr (Or.inl hfirst')⟩

/-- A step may depend on the kind of templates. -/
theorem repeats_get {k : Lowering → Step β}
    (hsame : ∀ l l', l.session.pipeline = l'.session.pipeline → k l = k l')
    (hk : ∀ l, Repeats (k l)) : Repeats (get >>= k) := by
  intro l b l' hrun
  rcases hk l l b l' hrun with ⟨hgrown, counts, hcounts, hagain⟩
  refine ⟨hgrown, counts, hcounts, fun u hu => ?_⟩
  -- The kind of templates does not change in a run, so the same step is taken.
  have hstep : k (l.again u) = k l := hsame _ _ (hu.pipeline.trans hgrown.pipeline)
  have hrest := hagain u hu
  rw [← hstep] at hrest
  exact hrest

/-- A step of the session that counts nothing. -/
theorem repeats_onSession {step : Session.Step α}
    (h : ∀ s a s', step s = .ok a s' → Grown s s' ∧ s'.stats = s.stats ∧
      ∀ u, Grown s' u → ∃ ws, step u = .ok a { u with warnings := u.warnings ++ ws }) :
    Repeats (onSession step) := by
  intro l a l' hrun
  rcases onSession_ok_iff.mp hrun with ⟨s, hs, rfl⟩
  rcases h l.session a s hs with ⟨hgrown, hstats, hagain⟩
  refine ⟨hgrown, [], congrArg Except.ok hstats.symm, fun u hu => ?_⟩
  rcases hagain u hu with ⟨ws, hws⟩
  exact Or.inl ⟨u.stats, ws, rfl, onSession_ok_iff.mpr ⟨_, hws, rfl⟩⟩

end Rules

section Operations

/-- Serving a read looks at the plan alone. -/
theorem commutes_again_serve (u : Session) (id : ChannelId) :
    Commutes (again u) (serve id) := by
  refine commutes_get fun l => ?_
  have hplan : (l.again u).plan = l.plan := rfl
  rw [hplan]
  cases l.plan.next id <;> rfl

/-- The plan serves a read again. -/
theorem repeats_serve (id : ChannelId) : Repeats (serve id) := by
  refine repeats_of_commutes (fun u => commutes_again_serve u id) fun l wire l' h => ?_
  rcases bind_ok_iff.mp h with ⟨l₀, l₁, hget, h⟩
  rcases get_ok_iff.mp hget with ⟨rfl, rfl⟩
  cases hnext : l.plan.next id with
  | error e =>
      rw [hnext] at h
      cases h
  | ok pair =>
      rw [hnext] at h
      cases h
      rfl

/-- The supply makes a name again. -/
theorem repeats_draw (request : NameSupply.Request) : Repeats (draw request) :=
  repeats_of_commutes (fun _ _ => rfl) fun l name l' h => by
    cases h
    rfl

/-- A change of the output that leaves alone what is new in it. -/
theorem repeats_output (f : LoweredProcess → LoweredProcess)
    (hf : ∀ out, (f out).bare = f out.bare) : Repeats (output f) := by
  refine repeats_of_commutes (fun u l => ?_) fun l a l' h => ?_
  · change EStateM.Result.ok () { l with session := u, out := f l.out.bare }
      = .ok () { l with session := u, out := (f l.out).bare }
    rw [hf]
  · cases h
    rfl

/-- A warning is logged once more. -/
theorem repeats_warn (ws : List Warning) : Repeats (onSession (Session.warn ws)) := by
  refine repeats_onSession fun s a s' h => ?_
  rw [← modify_ok_iff.mp h]
  exact ⟨.of_eq rfl rfl rfl, rfl, fun u _ => ⟨ws, rfl⟩⟩

/-- A body that was named keeps its name, so that nothing has to be noted. -/
theorem note_known (T U : Bodies) (name : String) (fp : UInt64)
    (h : Bodies.Keeps (T.note name fp) U) : ∃ before, U.lookup name = some before ∧
      (before ≠ fp → ∃ other, U.lookup (Cache.hashedName name fp) = some other) := by
  -- What was added is still there.
  have hadded : ∀ n, Bodies.Keeps (T.add n fp) U →
      U.lookup n = some ((T.lookup n).getD fp) := by
    intro n hkeeps
    refine hkeeps n _ ?_
    rw [Bodies.lookup_add, if_pos rfl]
  -- Either the plain name was noted, or another body had it and the hashed name was.
  cases hlook : T.lookup name with
  | none =>
      unfold Bodies.note at h
      rw [hlook] at h
      have hname := hadded name h
      rw [hlook, Option.getD_none] at hname
      exact ⟨fp, hname, fun hne => absurd rfl hne⟩
  | some before =>
      refine ⟨before, h name before (Bodies.note_keeps T name fp name before hlook), fun hne => ?_⟩
      unfold Bodies.note at h
      simp only [hlook, if_neg hne] at h
      exact ⟨_, hadded _ h⟩

/-- The table of bodies has the answer that was given, and is left as it is. -/
theorem disambiguate_again (c d : Cache) (name body : String)
    (h : Bodies.Keeps (c.disambiguate name body).2.1.bodies d.bodies) :
    (d.disambiguate name body).2.1 = d := by
  rw [Cache.disambiguate_bodies] at h
  rcases note_known _ _ _ _ h with ⟨before, hlook, hhashed⟩
  unfold Cache.disambiguate
  simp only [hlook]
  -- If another body has the plain name, the hashed one has been noted.
  by_cases hfp : before = Text.fingerprint body
  · simp only [if_pos hfp]
  · rcases hhashed hfp with ⟨other, hother⟩
    simp only [if_neg hfp, Cache.addBody, hother]

/-- A unit is named again as before. -/
theorem repeats_disambiguate (name body : String) :
    Repeats (onSession (Session.disambiguate name body)) := by
  refine repeats_onSession fun s answer s' h => ?_
  have hregistered := registered_disambiguate name body answer s s' h
  have hpricing : s'.pricing = s.pricing := by
    cases hregistered.asked with
    | done _ _ hsame => exact hsame
  refine ⟨⟨hregistered.pipeline, hregistered.bodies, ?_, ?_, .of_eq
    (congrArg Pricing.metrics hpricing) (congrArg Pricing.estimator hpricing)⟩,
    (Except.ok.inj hregistered.stats).symm, fun u hu => ?_⟩
  · rw [hregistered.names]
    exact List.Subset.refl _
  · rw [hregistered.keys]
    exact List.Subset.refl _
  · -- The cache answers as before and stays as it is.
    have hrun : ∀ t, Session.disambiguate name body t = .ok (t.cache.disambiguate name body).1
        { t with
          cache := (t.cache.disambiguate name body).2.1
          warnings := t.warnings ++ (t.cache.disambiguate name body).2.2 } := fun _ => rfl
    rcases disambiguate_ok name body answer s s' h with ⟨_, hbodies, hanswer⟩
    have hcache : (u.cache.disambiguate name body).2.1 = u.cache := by
      refine disambiguate_again s.cache u.cache name body ?_
      rw [Cache.disambiguate_bodies, ← hbodies]
      exact hu.bodies
    have hname : (u.cache.disambiguate name body).1 = answer := by
      rw [hanswer u.cache.bodies hu.bodies]
      refine Cache.disambiguate_name u.cache name body u.cache.bodies ?_
      rw [hcache]
      exact Bodies.Keeps.refl _
    refine ⟨(u.cache.disambiguate name body).2.2, ?_⟩
    rw [hrun, hcache, hname]

/-- A cost that was found is found again. -/
theorem repeats_requireCost (key : String) : Repeats (onSession (Session.requireCost key)) := by
  refine repeats_onSession fun s cost s' h => ?_
  rcases requireCost_ok key cost s s' h with ⟨hlook, rfl⟩
  refine ⟨.refl _, rfl, fun u hu => ⟨[], ?_⟩⟩
  -- No entry of the table is lost, and finding one logs no warning.
  rw [List.append_nil]
  exact requireCost_eq key cost u (hu.learns.kept key cost hlook)

/-- So is the cost of a source. -/
theorem repeats_sourceCost (value width : Nat) : Repeats (onSession (sourceCost value width)) := by
  refine repeats_onSession fun s cost s' h => ?_
  rcases sourceCost_ok value width cost s s' h with ⟨hlook, rfl⟩
  refine ⟨.refl _, rfl, fun u hu => ⟨[], ?_⟩⟩
  -- The key of a source is not one that an estimator can answer, so its answer is stable.
  have hkey : ¬ ComputesKey (sourceKey value width) := by
    rw [← Component.key_source]
    exact Component.not_computesKey _ fun fu hfu => by cases hfu
  rw [List.append_nil]
  refine sourceCost_eq value width cost u ?_
  rw [Component.lookup_stable _ _ u hu.learns hkey,
    Component.lookup_stable _ _ u hu.learns (Component.not_computesKey_generic width)]
  exact hlook

/-- A unit that was priced is in the table, or it is still without a cost for the
    same reason. -/
theorem repeats_unitCost (fu : FunctionalUnit) (hfu : fu.Spelled) :
    Repeats (onSession (Session.unitCost fu fu.graph)) := by
  refine repeats_onSession fun s cost s' h => ?_
  rcases Component.ask_frame (.unit fu) cost s s' h with ⟨hcache, hstats, hpipeline⟩
  have hlearns := Component.learns_ask (.unit fu) hfu cost s s' h
  refine ⟨.of_learns hpipeline hcache hlearns, hstats, fun u hu => ?_⟩
  have hknown : u.metrics.lookup fu.key = cost :=
    Component.known_stable (.unit fu) hfu cost s s' u h hu.learns
  have hestimator : u.estimator = s.estimator := hu.learns.estimator.trans hlearns.estimator
  -- A cost in the table is the answer, and nothing is asked for.
  have hfound : ∀ c, u.metrics.lookup fu.key = some c → ∃ ws,
      Session.unitCost fu fu.graph u = .ok (some c) { u with warnings := u.warnings ++ ws } := by
    intro c hc
    refine ⟨[], bind_ok_iff.mpr ⟨u, u, rfl, ?_⟩⟩
    rw [hc, List.append_nil]
    rfl
  cases unitCost_ok fu fu.graph cost s s' h with
  | known cost hcost => exact hfound cost hknown
  | estimated cost est requests files warnings habsent hcomputes hest => exact hfound cost hknown
  | absent warnings habsent hwhy =>
      -- The reason for having no cost is still there.
      by_cases hforward : fu.isForward = true
      · refine ⟨[], bind_ok_iff.mpr ⟨u, u, rfl, ?_⟩⟩
        rw [hknown, List.append_nil]
        simp only [if_pos hforward]
        rfl
      · exact ⟨_, unitCost_unestimated fu fu.graph u hknown hforward
          (hestimator.trans (hwhy.resolve_left hforward))⟩

/-- A copy is counted once more. -/
theorem repeats_recordCopy (width outputs : Nat) :
    Repeats (onSession (Session.recordCopy width outputs)) := by
  intro l a l' h
  rcases onSession_ok_iff.mp h with ⟨s, hs, rfl⟩
  have hs := modify_ok_iff.mp hs
  subst hs
  refine ⟨.of_eq rfl rfl rfl, [.copy width outputs], rfl, fun u _ => ?_⟩
  refine Or.inl ⟨u.stats.recordCopy width outputs, [], rfl, ?_⟩
  rw [List.append_nil]
  rfl

/-- Recording a cost changes the statistics, or fails as they do. -/
theorem recordCost_run (key : String) (cost : Cost) (s : Session) :
    Session.recordCost key cost s =
      match s.stats.record key cost with
      | .ok stats => .ok () { s with stats }
      | .error e => .error e s := by
  unfold Session.recordCost
  rw [get_bind_apply, bind_apply, lift_apply]
  cases s.stats.record key cost <;> rfl

/-- A template that was written is not new. -/
theorem addTemplate_known (name : String) (l : Lowering) (h : name ∈ l.session.cache.templates) :
    onSession (Session.addTemplate name) l = .ok false l := by
  have hadd : l.session.cache.addTemplate name = (false, l.session.cache) := by
    unfold Cache.addTemplate
    rw [if_pos h]
  have hrun : onSession (Session.addTemplate name) l = .ok (l.session.cache.addTemplate name).1
      { l with session := { l.session with cache := (l.session.cache.addTemplate name).2 } } := rfl
  rw [hrun, hadd]

/-- Nor is a cost block. -/
theorem addInstance_known (key : String) (l : Lowering) (h : key ∈ l.session.cache.instances) :
    onSession (Session.addInstance key) l = .ok false l := by
  have hadd : l.session.cache.addInstance key = (false, l.session.cache) := by
    unfold Cache.addInstance
    rw [if_pos h]
  have hrun : onSession (Session.addInstance key) l = .ok (l.session.cache.addInstance key).1
      { l with session := { l.session with cache := (l.session.cache.addInstance key).2 } } := rfl
  rw [hrun, hadd]

/-- Registering what was registered only counts. -/
theorem register_known (template : Template) (cost : Option Cost) (ports : List PortCost)
    (key : String) (l : Lowering) (htemplate : template.name ∈ l.session.cache.templates)
    (hkey : key ∈ l.session.cache.instances) : register template cost ports key l =
      match cost with
      | none => .ok () l
      | some cost =>
        match l.session.stats.record key cost with
        | .ok stats => .ok () { l with session := { l.session with stats } }
        | .error e => .error e l := by
  unfold register
  rw [bind_of_ok (addTemplate_known _ l htemplate)]
  simp only [Bool.false_eq_true, if_false]
  rw [bind_of_ok (addInstance_known key l hkey)]
  cases cost with
  | none => rfl
  | some cost =>
      change onSession (Session.recordCost key cost) l = _
      unfold onSession
      rw [recordCost_run]
      dsimp only
      cases l.session.stats.record key cost <;> rfl

/-- What was registered is registered again by counting it. -/
theorem repeats_register (template : Template) (cost : Option Cost) (ports : List PortCost)
    (key : String) : Repeats (register template cost ports key) := by
  intro l a l' h
  rcases register_ok template cost ports key a l l' h with ⟨stats, hstats, rfl⟩
  -- What was just written is among what was seen, and so is everything before.
  have hseen : ∀ {β : Type} (key : β → String) (seen : List String) (x : β),
      key x ∈ seenAfter key seen [x] ∧ seen ⊆ seenAfter key seen [x] := by
    intro β key seen x
    by_cases hx : key x ∈ seen
    · simp [seenAfter, hx]
    · simp [seenAfter, hx]
  have htemplates := hseen Template.name l.session.cache.templates template
  have hinstances := hseen CostBlock.key l.session.cache.instances ⟨key, ports, cost⟩
  have hgrown : Grown l.session { l.session with
      cache := noted l.session.cache template ⟨key, ports, cost⟩, stats } :=
    ⟨rfl, Bodies.Keeps.refl _, htemplates.2, hinstances.2, .of_eq rfl rfl⟩
  cases cost with
  | none =>
      refine ⟨hgrown, [], hstats, fun u hu => Or.inl ⟨u.stats, [], rfl, ?_⟩⟩
      rw [register_known template none ports key (l.again u) (hu.templates htemplates.1)
        (hu.instances hinstances.1), List.append_nil]
      rfl
  | some c =>
      refine ⟨hgrown, [.cost key c], ?_, fun u hu => ?_⟩
      · rw [Statistics.countAll_single]
        exact hstats
      · have hrun := register_known template (some c) ports key (l.again u)
          (hu.templates htemplates.1) (hu.instances hinstances.1)
        have hcount := Statistics.countAll_single u.stats (.cost key c)
        change u.stats.countAll [.cost key c] = u.stats.record key c at hcount
        change register template (some c) ports key (l.again u) =
          match u.stats.record key c with
          | .ok stats => .ok () { l.again u with session := { u with stats } }
          | .error e => .error e (l.again u) at hrun
        rw [hrun]
        -- The count goes through as it does alone, or it overflows as it does alone.
        cases hrecord : u.stats.record key c with
        | ok stats' =>
            rw [hrecord] at hcount
            refine Or.inl ⟨stats', [], hcount, ?_⟩
            rw [List.append_nil]
            rfl
        | error e =>
            rw [hrecord] at hcount
            rw [u.stats.record_error key c e hrecord]
            exact Or.inr ⟨e, _, hcount, rfl⟩

/-- Every operation of lowering is repeated. -/
theorem closed_repeats : Closed fun _ m => Repeats m where
  pure := repeats_pure
  throw := repeats_throw
  bind := repeats_bind
  get := repeats_get
  serve := repeats_serve
  draw := repeats_draw
  declare := fun _ _ => repeats_output _ fun _ => rfl
  unread := fun _ _ => repeats_warn _
  disambiguate := repeats_disambiguate
  require := repeats_requireCost
  source := repeats_sourceCost
  unit := repeats_unitCost
  recordCopy := repeats_recordCopy
  register := repeats_register
  addInstance := fun _ => repeats_output _ fun _ => rfl
  addCopy := fun _ => repeats_output _ fun _ => rfl

end Operations

end Lowering

/-- A process that was lowered is lowered again with the same result, and with
    nothing new in it. The session keeps everything but the statistics, to which
    the same is added as the first time, and the log of warnings. Only if a sum of
    the statistics leaves its range does the second run fail. -/
theorem second_lowering_only_counts (p : Process) (s s' : Session) (out : LoweredProcess)
    (h : lowerProcess p s = .ok out s') : ∃ counts : List Count,
      s.stats.countAll counts = .ok s'.stats ∧
      ((∃ stats ws, s'.stats.countAll counts = .ok stats ∧
          lowerProcess p s' = .ok { out with templates := [], costBlocks := [] }
            { s' with stats, warnings := s'.warnings ++ ws }) ∨
        ∃ e t, s'.stats.countAll counts = .error e ∧
          lowerProcess p s' = .error .costOverflow t) := by
  rcases (lowerProcess_ok_iff p s s' out).mp h with
    ⟨uses, plan, l, l', huses, hplan, hcopies, helements, rfl, rfl⟩
  have hclosed := Lowering.closed_repeats
  have hrepeats := hclosed.seq (hclosed.lowerCopies plan.copies) fun _ =>
    hclosed.lowerElements ⟨p, uses⟩ p.elements
  rcases hrepeats _ () l' (bind_ok_iff.mpr ⟨(), l, hcopies, helements⟩) with
    ⟨_, counts, hcounts, hagain⟩
  -- The second run starts where the first one did, but for the session.
  refine ⟨counts, hcounts, ?_⟩
  rcases hagain l'.session (.refl _) with ⟨stats, ws, hstats, hend⟩ | ⟨e, t, he, hend⟩
  · rcases bind_ok_iff.mp hend with ⟨_, k, hcopies', helements'⟩
    exact Or.inl ⟨stats, ws, hstats, (lowerProcess_ok_iff p _ _ _).mpr
      ⟨uses, plan, k, _, huses, hplan, hcopies', helements', rfl, rfl⟩⟩
  · exact Or.inr ⟨e, t.session, he, lowerProcess_error p _ uses plan _ t huses hplan hend⟩

/-- Two clusters of one process spell the same name, so the second one is renamed,
    and an adder is estimated. Lowered again, the process has the same instances
    under the same names and asks for nothing. -/
theorem renamed_cluster_is_named_again :
    let p : Process := ⟨"p", ⟨[⟨"a", .int 8, .port .input, 0⟩, ⟨"b", .int 8, .port .input, 1⟩,
        ⟨"c", .int 8, .port .input, 2⟩, ⟨"d", .int 8, .port .input, 3⟩,
        ⟨"e", .int 8, .port .input, 4⟩, ⟨"v", .int 8, .port .output, 5⟩,
        ⟨"w", .int 8, .port .output, 6⟩, ⟨"x", .int 8, .port .output, 7⟩,
        ⟨"y", .int 8, .port .output, 8⟩, ⟨"z", .int 8, .port .output, 9⟩]⟩,
      [.cluster [⟨.var 0, none, some 5⟩, ⟨.var 1, none, some 6⟩],
        .cluster [⟨.var 2, none, some 7⟩, ⟨.var 2, none, some 8⟩],
        .func ⟨.binary .add (.var 3) (.var 4), none, some 9⟩]⟩
    let s : Session := { Session.start false .empty with
      metrics := [("latch1", ⟨1, 2, 10, 3⟩), ("twoToOne", ⟨0, 0, 20, 0⟩)]
      estimator := some ⟨fun _ _ =>
        (RunResult.finished 0 "100e-12 1e-3 2e-9 1000e-12" "").reply "estimate"⟩ }
    ∃ out s' stats warnings, lowerProcess p s = .ok out s' ∧
      out.instances.map Instance.key = ["func_port_8_p0_port_8_p1<8,8,8,8,8,8>",
        "func_port_8_p0_port_8_p1_h77050375fd71cac2<8,8,8,8,8>", "func_0add1_8<8,8,8,8>"] ∧
      s'.requests.length = 1 ∧
      lowerProcess p s' = .ok { out with templates := [], costBlocks := [] }
        { s' with stats, warnings } := by
  intro p s
  have hrun : (match lowerProcess p s with
      | .ok out s' => some (out.instances.map Instance.key, s'.requests.length,
          match lowerProcess p s' with
          | .ok _ _ => true
          | .error _ _ => false)
      | .error _ _ => none) = some (["func_port_8_p0_port_8_p1<8,8,8,8,8,8>",
        "func_port_8_p0_port_8_p1_h77050375fd71cac2<8,8,8,8,8>", "func_0add1_8<8,8,8,8>"],
        1, true) := by decide +kernel
  cases hfirst : lowerProcess p s with
  | error e s' =>
      rw [hfirst] at hrun
      cases hrun
  | ok out s' =>
      rw [hfirst] at hrun
      simp only [Option.some.injEq, Prod.mk.injEq] at hrun
      rcases hrun with ⟨hkeys, hrequests, hsecond⟩
      rcases (second_lowering_only_counts p s s' out hfirst) with
        ⟨_, _, ⟨stats, ws, _, hagain⟩ | ⟨_, _, _, hfails⟩⟩
      · exact ⟨out, s', stats, _, rfl, hkeys, hrequests, hagain⟩
      · rw [hfails] at hsecond
        cases hsecond

end DataflowCircuit
