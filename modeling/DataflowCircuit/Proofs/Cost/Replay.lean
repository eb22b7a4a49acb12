import DataflowCircuit.Proofs.Cost.Records
import DataflowCircuit.Proofs.Lowering.Closure

/-!
# Lowering Again With What Was Learned

A run that estimates costs learns them one by one, and the table of a later run
has all of them from the start. The two tables differ at every step, and what
has to be shown is that no step can tell.

The argument replaces everything that answers depend on. `Session.priced` gives
a session another table, another estimator, other files, and leaves alone what
a run writes: the cache, the statistics and the warnings. A step that asks for
no cost does the same on both sides, so it commutes with the replacement. A step
that asks gets the same answer as long as the other table has every entry that
the run ends with, and no entry that would surprise it: a unit that forwards, a
source or anything structural must not be in the other table unless it was in
the first. That is the case if whatever is new stands under the key of a unit
that computes something.

So a run that succeeded with an estimator succeeds again without one, from any
table that covers its last one, with the same result and the same effects.

## Main definitions

* `Commutes`: A step that does not see what a map of the state changes.
* `Session.priced`, `Lowering.priced`: Other answers for the same run.
* `Pricing.Covers`: A table that gives every answer of a session again.
* `Session.Replays`, `Lowering.Replays`: A step that is repeated with such a
  table.

## Theorems

* `replays_of_commutes`, `replays_bind`: The rules.
* `closed_of_commutes`: The operations that ask for no cost.
* `replays_requireCost`, `replays_sourceCost`, `replays_unitCost`: The questions.
* `closed_replays`: Every operation of lowering.
* `replays_lowerProcess`, `replays_lowerAll`: A process, and a program.
-/

namespace DataflowCircuit

section Commuting

variable {σ α β : Type}

/-- The result of a step with its state mapped. -/
def mapState (f : σ → σ) : EStateM.Result Error σ α → EStateM.Result Error σ α
  | .ok a s => .ok a (f s)
  | .error e s => .error e (f s)

/-- A step that does not see what `f` changes: it ends alike before and after. -/
def Commutes (f : σ → σ) (m : EStateM Error σ α) : Prop :=
  ∀ s, m (f s) = mapState f (m s)

variable {f : σ → σ} {m : EStateM Error σ α} {k : α → EStateM Error σ β}

/-- Returning does not look at the state. -/
theorem commutes_pure (a : α) : Commutes f (pure a : EStateM Error σ α) :=
  fun _ => rfl

/-- Neither does stopping. -/
theorem commutes_throw (e : Error) : Commutes f (throw e : EStateM Error σ α) :=
  fun _ => rfl

/-- Steps that do not see a change do not see it one after the other. -/
theorem commutes_bind (hm : Commutes f m) (hk : ∀ a, Commutes f (k a)) :
    Commutes f (m >>= k) := by
  intro s
  rw [bind_apply, bind_apply, hm s]
  cases m s with
  | ok a s' => exact hk a s'
  | error e s' => rfl

/-- A step that depends on the state it starts from. -/
theorem commutes_get {k : σ → EStateM Error σ α} (hk : ∀ s, k (f s) (f s) = mapState f (k s s)) :
    Commutes f (get >>= k) :=
  hk

/-- A change that is made on a condition. -/
theorem commutes_when (c : Bool) (hm : Commutes f m) (r : EStateM Error σ β)
    (hr : Commutes f r) : Commutes f (if c = true then (m >>= fun _ => r) else r) := by
  cases c with
  | true => exact commutes_bind hm fun _ => hr
  | false => exact hr

end Commuting

section Pricing

/-- A session with other answers. -/
def Session.priced (P : Pricing) (s : Session) : Session :=
  { s with
    metrics := P.metrics
    custom := P.custom
    estimator := P.estimator
    requests := P.requests
    files := P.files }

/-- A state of lowering with other answers. -/
def Lowering.priced (P : Pricing) (l : Lowering) : Lowering :=
  { l with session := l.session.priced P }

/-- A table without an estimator that gives every answer of a session again: it
    has the entries of the session, and what it has besides stands under keys
    that compute something. -/
structure Pricing.Covers (P : Pricing) (s : Session) : Prop where
  estimator : P.estimator = none
  kept : ∀ key cost, s.metrics.lookup key = some cost → P.metrics.lookup key = some cost
  learned : ∀ key, s.metrics.lookup key = none → P.metrics.lookup key ≠ none → ComputesKey key

variable {P : Pricing} {s s' : Session}

/-- What covers the end of a run covers its start. -/
theorem Pricing.Covers.of_learns (h : P.Covers s') (hl : Learns s s') : P.Covers s := by
  refine ⟨h.estimator, fun key cost hkey => h.kept key cost (hl.kept key cost hkey),
    fun key hnone hsome => ?_⟩
  cases hmid : s'.metrics.lookup key with
  | none => exact h.learned key hmid hsome
  | some cost => exact (hl.learned key hnone (by rw [hmid]; exact Option.some_ne_none cost)).2

/-- What computes nothing has the same answer under both tables. -/
theorem Pricing.Covers.lookup_eq (h : P.Covers s) (key : String) (hkey : ¬ ComputesKey key) :
    P.metrics.lookup key = s.metrics.lookup key := by
  cases hlook : s.metrics.lookup key with
  | some cost => exact h.kept key cost hlook
  | none =>
      by_contra hne
      exact hkey (h.learned key hlook hne)

/-- Every run of `m` with an estimator that succeeds learns, and is repeated
    with every table that covers its end. -/
def Session.Replays {α : Type} (m : Session.Step α) : Prop :=
  ∀ s a s', m s = .ok a s' → s.estimator ≠ none →
    Learns s s' ∧ ∀ P : Pricing, P.Covers s' → m (s.priced P) = .ok a (s'.priced P)

/-- The same for steps of lowering. -/
def Lowering.Replays {α : Type} (m : Lowering.Step α) : Prop :=
  ∀ l a l', m l = .ok a l' → l.session.estimator ≠ none →
    Learns l.session l'.session ∧
      ∀ P : Pricing, P.Covers l'.session → m (l.priced P) = .ok a (l'.priced P)

end Pricing

namespace Lowering

section Rules

variable {α β : Type} {m : Step α} {k : α → Step β}

/-- A step that asks for no cost is repeated. -/
theorem replays_of_commutes (h : ∀ P, Commutes (Lowering.priced P) m) : Replays m := by
  intro l a l' hrun _
  -- Under its own answers a state is itself, so a step that commutes with all
  -- answers leaves those it finds.
  have hsame := h l.session.pricing l
  have hself : l.priced l.session.pricing = l := rfl
  rw [hself, hrun] at hsame
  have hl' : l' = l'.priced l.session.pricing := (EStateM.Result.ok.inj hsame).2
  refine ⟨.of_eq (by rw [hl']; rfl) (by rw [hl']; rfl), fun P _ => ?_⟩
  rw [h P l, hrun]
  rfl

/-- A sequence is repeated if its parts are, where the second may rely on what
    holds of every result of the first. -/
theorem replays_bind {Q : α → Prop} (hm : Replays m)
    (hpost : ∀ l a l', m l = .ok a l' → Q a) (hk : ∀ a, Q a → Replays (k a)) :
    Replays (m >>= k) := by
  intro l b l'' hrun hest
  rcases bind_ok_iff.mp hrun with ⟨a, l', hfirst, hrest⟩
  rcases hm l a l' hfirst hest with ⟨hlearns, hreplay⟩
  rcases hk a (hpost l a l' hfirst) l' b l'' hrest (by rw [hlearns.estimator]; exact hest) with
    ⟨hlearns', hreplay'⟩
  -- What covers the end of the sequence covers the middle.
  refine ⟨hlearns.trans hlearns', fun P hP => ?_⟩
  exact bind_ok_iff.mpr
    ⟨a, l'.priced P, hreplay P (hP.of_learns hlearns'), hreplay' P hP⟩

/-- A step may depend on the state, but not on the answers in it. -/
theorem replays_get {k : Lowering → Step β} (hsame : ∀ P l, k (l.priced P) = k l)
    (hk : ∀ l, Replays (k l)) : Replays (get >>= k) := by
  intro l b l' hrun hest
  rcases bind_ok_iff.mp hrun with ⟨l₀, l₁, hget, hrest⟩
  rcases get_ok_iff.mp hget with ⟨rfl, rfl⟩
  rcases hk l l b l' hrest hest with ⟨hlearns, hreplay⟩
  refine ⟨hlearns, fun P hP => ?_⟩
  refine bind_ok_iff.mpr ⟨l.priced P, l.priced P, rfl, ?_⟩
  rw [hsame]
  exact hreplay P hP

/-- A step of the session is repeated inside lowering. -/
theorem replays_onSession {step : Session.Step α} (h : Session.Replays step) :
    Replays (onSession step) := by
  intro l a l' hrun hest
  rcases onSession_ok_iff.mp hrun with ⟨s, hs, rfl⟩
  rcases h l.session a s hs hest with ⟨hlearns, hreplay⟩
  refine ⟨hlearns, fun P hP => ?_⟩
  exact onSession_ok_iff.mpr ⟨s.priced P, hreplay P hP, rfl⟩

/-- The answers are in the session, so it is the session that has to ignore
    them. -/
theorem commutes_onSession {step : Session.Step α} (P : Pricing)
    (h : Commutes (Session.priced P) step) : Commutes (Lowering.priced P) (onSession step) := by
  intro l
  unfold onSession
  have hs := h l.session
  change step (l.priced P).session = _ at hs
  rw [hs]
  cases step l.session <;> rfl

end Rules

section Unpriced

variable (P : Pricing)

/-- Serving a read looks at the plan. -/
theorem commutes_serve (id : ChannelId) : Commutes (Lowering.priced P) (serve id) := by
  refine commutes_get fun l => ?_
  have hplan : (l.priced P).plan = l.plan := rfl
  rw [hplan]
  cases l.plan.next id <;> rfl

/-- Drawing a name looks at the names. -/
theorem commutes_draw (request : NameSupply.Request) :
    Commutes (Lowering.priced P) (draw request) :=
  fun _ => rfl

/-- What is written is not looked at. -/
theorem commutes_output (g : LoweredProcess → LoweredProcess) :
    Commutes (Lowering.priced P) (output g) :=
  fun _ => rfl

/-- Warnings are not looked at either. -/
theorem commutes_warn (ws : List Warning) : Commutes (Session.priced P) (Session.warn ws) :=
  fun _ => rfl

/-- Finding a name looks at the cache. -/
theorem commutes_disambiguate (name body : String) :
    Commutes (Session.priced P) (Session.disambiguate name body) :=
  fun _ => rfl

/-- Counting a cost looks at the statistics. -/
theorem commutes_recordCost (key : String) (cost : Cost) :
    Commutes (Session.priced P) (Session.recordCost key cost) := by
  refine commutes_get fun s => ?_
  have hstats : (s.priced P).stats = s.stats := rfl
  rw [hstats]
  cases s.stats.record key cost <;> rfl

/-- Writing a template and a cost block asks for nothing. -/
theorem commutes_register (template : Template) (cost : Option Cost) (ports : List PortCost)
    (key : String) : Commutes (Lowering.priced P) (register template cost ports key) := by
  refine commutes_bind (commutes_onSession P fun _ => rfl) fun new => ?_
  -- A new template or block is written, and an old one is not.
  refine commutes_when new (commutes_output P _) _ ?_
  refine commutes_bind (commutes_onSession P fun _ => rfl) fun isNew => ?_
  refine commutes_when isNew (commutes_output P _) _ ?_
  cases cost with
  | none => exact commutes_pure ()
  | some cost => exact commutes_onSession P (commutes_recordCost P key cost)

/-- Most operations ask for no cost. So a property that holds of every step that
    asks for none is closed if it holds of the questions too. -/
theorem closed_of_commutes {Q : (α : Type) → Step α → Prop}
    (hunpriced : ∀ {α : Type} {m : Step α}, (∀ P, Commutes (Lowering.priced P) m) → Q α m)
    (hbind : ∀ {α β : Type} {m : Step α} {k : α → Step β} (A : α → Prop), Q α m →
      (∀ l a l', m l = .ok a l' → A a) → (∀ a, A a → Q β (k a)) → Q β (m >>= k))
    (hget : ∀ {β : Type} {k : Lowering → Step β}, (∀ P l, k (l.priced P) = k l) →
      (∀ l, Q β (k l)) → Q β (get >>= k))
    (hrequire : ∀ key, Q Cost (onSession (Session.requireCost key)))
    (hsource : ∀ value width, Q Cost (onSession (sourceCost value width)))
    (hunit : ∀ fu : FunctionalUnit, fu.Spelled →
      Q (Option Cost) (onSession (Session.unitCost fu fu.graph))) : Closed Q where
  pure := fun a => hunpriced fun _ => commutes_pure a
  throw := fun e => hunpriced fun _ => commutes_throw e
  bind := hbind
  -- The kind of templates is no answer.
  get := fun hsame hk => hget (fun _ _ => hsame _ _ rfl) hk
  serve := fun id => hunpriced fun P => commutes_serve P id
  draw := fun request => hunpriced fun P => commutes_draw P request
  declare := fun _ _ => hunpriced fun P => commutes_output P _
  unread := fun _ _ => hunpriced fun P => commutes_onSession P (commutes_warn P _)
  disambiguate := fun name body => hunpriced fun P =>
    commutes_onSession P (commutes_disambiguate P name body)
  require := hrequire
  source := hsource
  unit := hunit
  recordCopy := fun _ _ => hunpriced fun P => commutes_onSession P fun _ => rfl
  register := fun template cost ports key => hunpriced fun P =>
    commutes_register P template cost ports key
  addInstance := fun _ => hunpriced fun P => commutes_output P _
  addCopy := fun _ => hunpriced fun P => commutes_output P _

end Unpriced

section Questions

/-- A cost that was required is found again. -/
theorem replays_requireCost (key : String) : Session.Replays (Session.requireCost key) := by
  intro s cost s' hrun _
  rcases requireCost_ok key cost s s' hrun with ⟨hlook, rfl⟩
  exact ⟨.of_eq rfl rfl, fun P hP => requireCost_eq key cost _ (hP.kept key cost hlook)⟩

/-- The cost of the width is taken again, because the value has learned none. -/
theorem replays_sourceCost (value width : Nat) : Session.Replays (sourceCost value width) := by
  intro s cost s' hrun _
  rcases sourceCost_ok value width cost s s' hrun with ⟨hlook, rfl⟩
  refine ⟨.of_eq rfl rfl, fun P hP => ?_⟩
  -- A later entry for the value would be preferred, but nothing is learned under such a key.
  have hkey : ¬ ComputesKey (sourceKey value width) := by
    rw [← Component.key_source]
    exact Component.not_computesKey _ fun fu hfu => by cases hfu
  have hvalue := hP.lookup_eq _ hkey
  have hwidth := hP.lookup_eq _ (Component.not_computesKey_generic width)
  refine sourceCost_eq value width cost _ ?_
  change (P.metrics.lookup (sourceKey value width)).or
    (P.metrics.lookup (genericSourceKey width)) = some cost
  rw [hvalue, hwidth]
  exact hlook

/-- A clamped number is in the range that it is clamped to. -/
theorem inSigned64_clamp (n : Int) : Number.inSigned64 (Binary64.clamp n) = true := by
  have hrange : Int64.minValue.toInt ≤ Int64.maxValue.toInt := by decide
  unfold Number.inSigned64 Binary64.clamp
  rw [Bool.and_eq_true, decide_eq_true_eq, decide_eq_true_eq]
  omega

/-- A truncated number is in the signed 64-bit range. -/
theorem inSigned64_truncate (x : Float) : Number.inSigned64 (Binary64.truncate x) = true := by
  unfold Binary64.truncate
  split
  · decide
  · exact inSigned64_clamp _

/-- A cost that is made from a reply consists of signed 64-bit numbers. -/
theorem normalize_inSigned64 (raw : RawCost) (r : EstimateRequest) (latch twoToOne cost : Cost)
    (h : raw.normalize r latch twoToOne = .ok cost) : cost.inSigned64 = true := by
  -- Delays are summed in the range of the result, or not at all.
  have hsum : ∀ a b c sum, addDelays a b c = .ok sum → Number.inSigned64 sum = true := by
    intro a b c sum hadd
    unfold addDelays at hadd
    split at hadd
    · rename_i total htotal
      cases hadd
      rcases Option.bind_eq_some_iff.mp htotal with ⟨ab, _, habc⟩
      unfold Number.addSigned64? at habc
      split at habc
      · rename_i hin
        cases habc
        exact hin
      · cases habc
    · cases hadd
  rcases except_bind_ok_iff.mp h with ⟨total, htotal, hcost⟩
  rw [← except_pure_ok_iff.mp hcost]
  unfold Cost.inSigned64 adjust
  rw [inSigned64_truncate, inSigned64_truncate, inSigned64_truncate, hsum _ _ _ _ htotal]
  rfl

/-- What estimating a unit leaves: the entry, the request, and the record in the
    custom file. -/
structure Estimated (fu : FunctionalUnit) (cost : Cost) (s s' : Session) : Prop where
  frame : ∃ requests files, s' = { s with
    metrics := MetricsTable.put (normalizeKey fu.key) cost s.metrics, requests, files }
  unkept : s.custom = none → s'.files = s.files
  kept : ∀ path, s.custom = some path →
    s.files.append path (recordLine (normalizeKey fu.key) cost) = .ok s'.files
  inSigned64 : cost.inSigned64 = true

/-- A unit without an entry is estimated. -/
theorem synthesize_new (est : Estimator) (fu : FunctionalUnit) (graph : CostGraph) (cost : Cost)
    (s s' : Session) (habsent : s.metrics.lookup fu.key = none)
    (h : Session.synthesize est fu graph s = .ok cost s') : Estimated fu cost s s' := by
  rcases synthesize_ok est fu graph cost s s' habsent h with
    ⟨latch, twoToOne, raw, files, _, _, _, hnormal, hunkept, hkept, rfl⟩
  exact ⟨⟨_, files, rfl⟩, hunkept, hkept, normalize_inSigned64 _ _ _ _ _ hnormal⟩

/-- A unit is priced from the table, or it computes nothing, or it is estimated. -/
theorem unitCost_estimated (fu : FunctionalUnit) (graph : CostGraph) (cost : Option Cost)
    (s s' : Session) (hest : s.estimator ≠ none)
    (h : Session.unitCost fu graph s = .ok cost s') :
    (s.metrics.lookup fu.key = cost ∧ (cost = none → fu.isForward = true) ∧ s' = s) ∨
      s.metrics.lookup fu.key = none ∧ fu.isForward = false ∧
        ∃ c, cost = some c ∧ Estimated fu c s s' := by
  rcases bind_ok_iff.mp h with ⟨s₀, s₁, hget, h⟩
  rcases get_ok_iff.mp hget with ⟨rfl, rfl⟩
  cases hlook : s.metrics.lookup fu.key with
  | some c =>
      rw [hlook] at h
      rcases pure_ok_iff.mp h with ⟨rfl, rfl⟩
      exact Or.inl ⟨rfl, (absurd · (Option.some_ne_none c)), rfl⟩
  | none =>
      rw [hlook] at h
      by_cases hforward : fu.isForward = true
      · simp only [if_pos hforward] at h
        rcases pure_ok_iff.mp h with ⟨rfl, rfl⟩
        exact Or.inl ⟨rfl, fun _ => hforward, rfl⟩
      · simp only [if_neg hforward] at h
        cases hestimator : s.estimator with
        | none => exact absurd hestimator hest
        | some est =>
            rw [hestimator] at h
            rcases bind_ok_iff.mp h with ⟨c, s₂, hsynth, h⟩
            rcases pure_ok_iff.mp h with ⟨rfl, rfl⟩
            exact Or.inr ⟨rfl, Bool.eq_false_iff.mpr hforward, c, rfl,
              synthesize_new est fu graph c s s₂ hlook hsynth⟩

/-- A unit is priced again: what was estimated is in the table now, and what
    forwards is still in none. -/
theorem replays_unitCost (fu : FunctionalUnit) (hfu : fu.Spelled) :
    Session.Replays (Session.unitCost fu fu.graph) := by
  intro s cost s' hrun hest
  refine ⟨Component.learns_ask (.unit fu) hfu cost s s' hrun, fun P hP => ?_⟩
  -- With the entry that the run ended with, or with none, a look at the table is
  -- all there is.
  have hstep : ∀ t : Session, (cost = none → fu.isForward = true) → t.metrics.lookup fu.key = cost →
      Session.unitCost fu fu.graph t = .ok cost t := by
    intro t hforward hlook
    refine bind_ok_iff.mpr ⟨t, t, rfl, ?_⟩
    rw [hlook]
    cases cost with
    | some c => rfl
    | none =>
        simp only [if_pos (hforward rfl)]
        rfl
  rcases unitCost_estimated fu fu.graph cost s s' hest hrun with
    ⟨hlook, hforward, rfl⟩ | ⟨_, _, c, rfl, hestimated⟩
  · refine hstep _ hforward ?_
    cases cost with
    | some c => exact hP.kept fu.key c hlook
    | none =>
        have hkey : ¬ ComputesKey fu.key := by
          rw [computesKey_of_spelled fu hfu, hforward rfl]
          exact Bool.noConfusion
        exact (hP.lookup_eq fu.key hkey).trans hlook
  · rcases hestimated.frame with ⟨requests, files, rfl⟩
    refine hstep (s.priced P) (absurd · (Option.some_ne_none c)) (hP.kept fu.key c ?_)
    change List.lookup (normalizeKey fu.key)
      (MetricsTable.put (normalizeKey fu.key) c s.metrics) = some c
    rw [lookup_put, if_pos rfl]

/-- Every operation of lowering is repeated. -/
theorem closed_replays : Closed fun _ m => Replays m :=
  closed_of_commutes replays_of_commutes (fun _ => replays_bind) replays_get
    (fun key => replays_onSession (replays_requireCost key))
    (fun value width => replays_onSession (replays_sourceCost value width))
    (fun fu hfu => replays_onSession (replays_unitCost fu hfu))

end Questions

end Lowering

section Processes

/-- A process is lowered again. -/
theorem replays_lowerProcess (p : Process) : Session.Replays (lowerProcess p) := by
  intro s out s' hrun hest
  rcases (lowerProcess_ok_iff p s s' out).mp hrun with
    ⟨uses, plan, l, l', huses, hplan, hcopies, helements, rfl, rfl⟩
  have hlower : (Lowering.lowerCopies plan.copies >>= fun _ =>
      Lowering.lowerElements ⟨p, uses⟩ p.elements) _ = .ok () l' :=
    bind_ok_iff.mpr ⟨(), l, hcopies, helements⟩
  have hclosed := Lowering.closed_replays
  rcases hclosed.seq (hclosed.lowerCopies plan.copies)
    (fun _ => hclosed.lowerElements ⟨p, uses⟩ p.elements) _ () l' hlower hest with
    ⟨hlearns, hreplay⟩
  refine ⟨hlearns, fun P hP => ?_⟩
  -- Both parts are repeated as one sequence, since the second starts where the first ends.
  rcases bind_ok_iff.mp (hreplay P hP) with ⟨_, k, hcopies', helements'⟩
  exact (lowerProcess_ok_iff p _ _ _).mpr
    ⟨uses, plan, k, l'.priced P, huses, hplan, hcopies', helements', rfl, rfl⟩

/-- A program is lowered again: with every table that covers the last one, a run
    that succeeded with an estimator gives the same processes. -/
theorem replays_lowerAll (ps : Program) : Session.Replays (lowerAll ps) := by
  induction ps with
  | nil =>
      intro s outs s' hrun _
      rcases pure_ok_iff.mp hrun with ⟨rfl, rfl⟩
      exact ⟨.of_eq rfl rfl, fun _ _ => rfl⟩
  | cons p ps ih =>
      intro s outs s' hrun hest
      rcases bind_ok_iff.mp hrun with ⟨out, t, hp, hrest⟩
      rcases bind_ok_iff.mp hrest with ⟨rest, t', hps, hpure⟩
      rcases pure_ok_iff.mp hpure with ⟨rfl, rfl⟩
      rcases replays_lowerProcess p s out t hp hest with ⟨hlearns, hreplay⟩
      rcases ih t rest t' hps (by rw [hlearns.estimator]; exact hest) with ⟨hlearns', hreplay'⟩
      refine ⟨hlearns.trans hlearns', fun P hP => ?_⟩
      refine bind_ok_iff.mpr
        ⟨out, t.priced P, hreplay P (hP.of_learns hlearns'), ?_⟩
      exact bind_ok_iff.mpr ⟨rest, t'.priced P, hreplay' P hP, rfl⟩

end Processes

end DataflowCircuit
