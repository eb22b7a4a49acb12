import DataflowCircuit.Proofs.Compile.Persistence
import DataflowCircuit.Proofs.Lowering.Closure

/-!
# Accounts of Estimates

An estimate is noted in three places at different times. The request is counted
before there is an answer, the entry is made when the answer has become a cost,
and the record is appended last. Lowering can stop between any two of them, and
a session goes on after that, so what the three places have in common cannot be
read off runs that succeed.

`Accounts` is what always holds between an earlier and a later state of a
session. Its estimates are the answers that became entries, in the order in
which they were given; what was answered and did not become an entry is named
beside them. Accounts are joined end to end, and the estimates of the joined
account are still of different units: a unit that was estimated has an entry,
and a unit with an entry is not asked about.

A step that stops is in one of three situations. Either nothing was lost, or the
last answer gave a cost out of range, or the last record could not be written.
The second is the end of a run. The third leaves the entry, so it is not asked
for again either.

## Main definitions

* `Reply`, `Estimate`: A unit that was asked about and what came of it.
* `Estimator.answers`: The requests that are answered.
* `Files.keep`: Records go to the custom file, if there is one.
* `Accounts`: What was asked, entered and written between two states.
* `Settled`: The situations in which a step stops.
* `Accounted`: A step with such an account, however it ends.

## Theorems

* `Accounts.append`: Accounts are joined.
* `accounted_unitCost`: The question that can lead to an estimate.
* `closed_accounted`: Every operation of lowering has an account.
* `accounted_lowerProcess`, `accounted_lowerAll`: So have processes and programs.
-/

namespace DataflowCircuit

section Replies

/-- A unit that an estimator was asked about, and the reply. -/
structure Reply where
  unit : FunctionalUnit
  raw : RawCost

/-- The request for the unit, with its answer. -/
def Reply.answer (r : Reply) : EstimateRequest × RawCost :=
  (r.unit.graph.request r.unit, r.raw)

/-- A reply that became the cost of the unit. -/
structure Estimate extends Reply where
  cost : Cost

/-- The record that is kept of an estimate. -/
def Estimate.record (e : Estimate) : String × Cost :=
  (normalizeKey e.unit.key, e.cost)

/-- The cost of an estimate is made from the reply, with the costs of what
    surrounds a unit according to a table. -/
def Estimate.MadeWith (table : MetricsTable) (e : Estimate) : Prop :=
  ∃ latch twoToOne, table.lookup Session.latchKey = some latch ∧
    table.lookup Session.twoToOneKey = some twoToOne ∧
      e.raw.normalize e.answer.1 latch twoToOne = .ok e.cost

/-- The requests among `rs` that are answered, with their answers, if `before`
    was asked before. -/
def Estimator.answers (est : Estimator) (before : List EstimateRequest) :
    List EstimateRequest → List (EstimateRequest × RawCost)
  | [] => []
  | r :: rs =>
    match est.answer before r with
    | .ok raw => (r, raw) :: est.answers (before ++ [r]) rs
    | .error _ => est.answers (before ++ [r]) rs

/-- Requests are answered in two parts. -/
theorem Estimator.answers_append (est : Estimator) (before rs rs' : List EstimateRequest) :
    est.answers before (rs ++ rs') = est.answers before rs ++ est.answers (before ++ rs) rs' := by
  induction rs generalizing before with
  | nil => simp [Estimator.answers]
  | cons r rs ih =>
      rw [List.cons_append, Estimator.answers, Estimator.answers, ih, List.append_assoc,
        List.singleton_append]
      cases est.answer before r with
      | ok raw => rfl
      | error fault => rfl

/-- The requests among `rs` that are answered in a session, with their answers. -/
def Session.answers (s : Session) (rs : List EstimateRequest) : List (EstimateRequest × RawCost) :=
  match s.estimator with
  | some est => est.answers s.requests rs
  | none => []

/-- Nothing was asked. -/
theorem Session.answers_nil (s : Session) : s.answers [] = [] := by
  unfold Session.answers
  cases s.estimator <;> rfl

end Replies

namespace Files

variable {fs fs' : Files} {path : String}

/-- Records can be appended where a path leads to the place of a file. -/
theorem appendRecords_of_place? (rs : List (String × Cost)) (p : Place)
    (hp : fs.place? path = some p) :
    ∃ fs', fs.appendRecords path rs = .ok fs' ∧ SameTree fs fs' := by
  cases rs with
  | nil => exact ⟨fs, rfl, .refl fs⟩
  | cons r rs =>
      exact ⟨_, appendRecords_eq fs path p (r :: rs) hp (List.cons_ne_nil _ _),
        sameTree_set (reached_of_place? hp) _⟩

/-- A text that cannot be appended is one whose path leads to no file. -/
theorem append_error (text : String) (e : Error) (h : fs.append path text = .error e) :
    fs.place? path = none ∧ ∃ fault, e = .cannotWrite path fault := by
  unfold append at h
  -- A text is only refused where there is no place for a file.
  unfold place?
  cases htarget : fs.target path with
  | ok p =>
      rw [htarget] at h
      cases h
  | error fault =>
      rw [htarget] at h
      cases h
      exact ⟨rfl, fault, rfl⟩

/-- The files after records went to the custom file. Without such a file, and
    where none can be, records go nowhere. -/
def keep (fs : Files) (custom : Option String) (rs : List (String × Cost)) : Files :=
  match custom with
  | none => fs
  | some path =>
    match fs.appendRecords path rs with
    | .ok fs' => fs'
    | .error _ => fs

/-- Records that can be appended are kept. -/
theorem keep_of_appendRecords (rs : List (String × Cost))
    (h : fs.appendRecords path rs = .ok fs') : fs.keep (some path) rs = fs' := by
  simp only [keep, h]

/-- Where a file can be, records are kept and nothing else happens. -/
theorem appendRecords_keep (rs : List (String × Cost)) (p : Place)
    (hp : fs.place? path = some p) : fs.appendRecords path rs = .ok (fs.keep (some path) rs) := by
  rcases appendRecords_of_place? rs p hp with ⟨fs', happend, _⟩
  rw [keep_of_appendRecords rs happend, happend]

/-- Where no file can be, nothing is kept. -/
theorem keep_unplaced (rs : List (String × Cost)) (hp : fs.place? path = none) :
    fs.keep (some path) rs = fs := by
  cases rs with
  | nil => rfl
  | cons r rs =>
      have hfails : ∀ fs', fs.appendRecords path (r :: rs) ≠ .ok fs' := by
        intro fs' happend
        rcases except_bind_ok_iff.mp happend with ⟨fs₁, hfirst, _⟩
        rcases (append_ok_iff _ _ _ _).mp hfirst with ⟨p, hp', _⟩
        rw [hp] at hp'
        cases hp'
      cases happend : fs.appendRecords path (r :: rs) with
      | ok fs' => exact absurd happend (hfails fs')
      | error e => simp only [keep, happend]

/-- Without records nothing changes. -/
theorem keep_nil (fs : Files) (custom : Option String) : fs.keep custom [] = fs := by
  cases custom <;> rfl

/-- Keeping records makes no place and takes none away. -/
theorem place?_keep (fs : Files) (custom : Option String) (rs : List (String × Cost))
    (other : String) : (fs.keep custom rs).place? other = fs.place? other := by
  cases custom with
  | none => rfl
  | some path =>
      cases hp : fs.place? path with
      | none => rw [keep_unplaced rs hp]
      | some p =>
          rcases appendRecords_of_place? rs p hp with ⟨fs', happend, htree⟩
          rw [keep_of_appendRecords rs happend, htree.place?_eq]

/-- Records may be kept in two parts. -/
theorem keep_append (fs : Files) (custom : Option String) (rs rs' : List (String × Cost)) :
    fs.keep custom (rs ++ rs') = (fs.keep custom rs).keep custom rs' := by
  cases custom with
  | none => rfl
  | some path =>
      cases hp : fs.place? path with
      | none => rw [keep_unplaced _ hp, keep_unplaced rs hp, keep_unplaced rs' hp]
      | some p =>
          have hmid : (fs.keep (some path) rs).place? path = some p := by rw [place?_keep, hp]
          exact keep_of_appendRecords _ (appendRecords_append _ _ _ path rs rs'
            (appendRecords_keep rs p hp) (appendRecords_keep rs' p hmid))

end Files

section Accounts

/-- What was asked, entered and written between two states of a session. The
    estimates became entries; what is lost was answered and did not. -/
structure Accounts (s s' : Session) (es : List Estimate) (lost : List Reply) : Prop where
  estimator : s'.estimator = s.estimator
  custom : s'.custom = s.custom
  asked : ∃ rs, s'.requests = s.requests ++ rs ∧
    s.answers rs = (es.map Estimate.toReply ++ lost).map Reply.answer
  made : ∀ e ∈ es, e.MadeWith s'.metrics
  table : s'.metrics = s.metrics ++ es.map Estimate.record
  files : s'.files = s.files.keep s.custom (es.map Estimate.record)
  fresh : ∀ r ∈ es.map Estimate.toReply ++ lost,
    s.metrics.lookup r.unit.key = none ∧ r.unit.isForward = false
  distinct : ((es.map Estimate.toReply ++ lost).map fun r => normalizeKey r.unit.key).Nodup

variable {s s' t u : Session} {es es' : List Estimate} {lost : List Reply}

/-- What answers depend on did not change. -/
theorem Accounts.of_pricing_eq (h : s'.pricing = s.pricing) : Accounts s s' [] [] where
  estimator := congrArg Pricing.estimator h
  custom := congrArg Pricing.custom h
  asked := ⟨[], by
    rw [List.append_nil]
    exact congrArg Pricing.requests h, s.answers_nil⟩
  made := fun e he => absurd he List.not_mem_nil
  table := by
    rw [List.map_nil, List.append_nil]
    exact congrArg Pricing.metrics h
  files := by
    rw [List.map_nil, Files.keep_nil]
    exact congrArg Pricing.files h
  fresh := fun r hr => absurd hr List.not_mem_nil
  distinct := List.nodup_nil

/-- An entry of the table stays as it is. -/
theorem Accounts.lookup_kept (h : Accounts s s' es lost) (key : String) (cost : Cost)
    (hkey : s.metrics.lookup key = some cost) : s'.metrics.lookup key = some cost := by
  unfold MetricsTable.lookup at hkey ⊢
  rw [h.table, List.lookup_append, hkey, Option.some_or]

/-- What has no entry later had none before, and was not estimated between. -/
theorem Accounts.lookup_none (h : Accounts s s' es lost) (key : String)
    (hkey : s'.metrics.lookup key = none) : s.metrics.lookup key = none ∧
      ∀ e ∈ es, normalizeKey e.unit.key ≠ normalizeKey key := by
  unfold MetricsTable.lookup at hkey ⊢
  rw [h.table, List.lookup_append, Option.or_eq_none_iff] at hkey
  refine ⟨hkey.1, fun e he heq => ?_⟩
  have hne := List.lookup_eq_none_iff.mp hkey.2 e.record (List.mem_map_of_mem he)
  rw [bne_iff_ne] at hne
  exact hne heq.symm

/-- The entry of an estimate has its cost. -/
theorem Accounts.lookup_estimate (h : Accounts s s' es lost) (e : Estimate) (he : e ∈ es) :
    s'.metrics.lookup e.unit.key = some e.cost := by
  -- Two estimates never share a key, or the later one would have found the entry of the first.
  have hdistinct : ((es.map Estimate.record).map Prod.fst).Nodup := by
    have hnodup := h.distinct
    rw [List.map_append, List.map_map] at hnodup
    rw [List.map_map]
    exact (List.nodup_append.mp hnodup).1
  have hnone := (h.fresh e.toReply (List.mem_append_left _ (List.mem_map_of_mem he))).1
  unfold MetricsTable.lookup at hnone ⊢
  rw [h.table, List.lookup_append, hnone, Option.none_or]
  exact Lowering.lookup_of_mem _ e.record hdistinct (List.mem_map_of_mem he)

/-- Requests of two accounts are answered one after the other. -/
theorem Accounts.answers_append (h : Accounts s t es []) (rs rs' : List EstimateRequest)
    (hrs : t.requests = s.requests ++ rs) :
    s.answers (rs ++ rs') = s.answers rs ++ t.answers rs' := by
  unfold Session.answers
  rw [h.estimator, hrs]
  cases s.estimator with
  | none => rfl
  | some est => exact est.answers_append s.requests rs rs'

/-- Accounts are joined. What the second one estimated had no entry when it
    started, so the first one did not estimate it. -/
theorem Accounts.append (h : Accounts s t es []) (h' : Accounts t u es' lost) :
    Accounts s u (es ++ es') lost := by
  refine ⟨h'.estimator.trans h.estimator, h'.custom.trans h.custom, ?_, ?_, ?_, ?_, ?_, ?_⟩
  · rcases h.asked with ⟨rs, hrs, hanswers⟩
    rcases h'.asked with ⟨rs', hrs', hanswers'⟩
    refine ⟨rs ++ rs', by rw [hrs', hrs, List.append_assoc], ?_⟩
    rw [h.answers_append rs rs' hrs, hanswers, hanswers']
    simp
  · intro e he
    rcases List.mem_append.mp he with he | he
    -- The costs of latches and joins stay in the table, so an old estimate is made with the new
    -- one as well.
    · rcases h.made e he with ⟨latch, twoToOne, hlatch, hjoin, hcost⟩
      exact ⟨latch, twoToOne, h'.lookup_kept _ _ hlatch, h'.lookup_kept _ _ hjoin, hcost⟩
    · exact h'.made e he
  · rw [h'.table, h.table, List.map_append, List.append_assoc]
  · rw [h'.files, h'.custom.symm.trans (h'.custom.trans h.custom), h.files, List.map_append,
      Files.keep_append]
  · intro r hr
    rw [List.map_append, List.append_assoc] at hr
    rcases List.mem_append.mp hr with hr | hr
    · exact h.fresh r (List.mem_append_left _ hr)
    · rcases h'.fresh r hr with ⟨hnone, hforward⟩
      exact ⟨(h.lookup_none _ hnone).1, hforward⟩
  · have hfirst := h.distinct
    rw [List.append_nil] at hfirst
    rw [List.map_append (f := Estimate.toReply), List.append_assoc, List.map_append]
    refine List.nodup_append.mpr ⟨hfirst, h'.distinct, fun key hkey key' hkey' heq => ?_⟩
    rcases List.mem_map.mp hkey with ⟨r, hr, rfl⟩
    rcases List.mem_map.mp hr with ⟨e, he, rfl⟩
    rcases List.mem_map.mp hkey' with ⟨r', hr', rfl⟩
    exact (h.lookup_none _ (h'.fresh r' hr').1).2 e he heq

end Accounts

section Steps

/-- Estimates are only made where their records can be kept. -/
def Session.Keeps (s : Session) (es : List Estimate) : Prop :=
  ∀ path, s.custom = some path → s.files.place? path = none → es = []

/-- The situations in which a step stops. -/
inductive Settled (s s' : Session) : Error → Prop where
  | kept (e : Error) (es : List Estimate) (haccounts : Accounts s s' es []) (hkeeps : s.Keeps es) :
      Settled s s' e
  /-- The last answer gave no cost. -/
  | overflow (es : List Estimate) (r : Reply) (haccounts : Accounts s s' es [r])
      (hkeeps : s.Keeps es) : Settled s s' .costOverflow
  /-- The last estimate has an entry and no record. -/
  | unwritten (e : Estimate) (path : String) (fault : PathFault) (hcustom : s.custom = some path)
      (hplace : s.files.place? path = none) (haccounts : Accounts s s' [e] []) :
      Settled s s' (.cannotWrite path fault)

section Definitions

variable {σ α : Type}

/-- The state in which a step ends. -/
def endState : EStateM.Result Error σ α → σ
  | .ok _ t => t
  | .error _ t => t

/-- A result that has an account from `s` on. The session is a part of the
    state. -/
def Ended (session : σ → Session) (s : Session) : EStateM.Result Error σ α → Prop
  | .ok _ t => ∃ es, Accounts s (session t) es [] ∧ s.Keeps es
  | .error e t => Settled s (session t) e

/-- A step that has an account, however it ends. -/
def Accounted (session : σ → Session) (m : EStateM Error σ α) : Prop :=
  ∀ t, Ended session (session t) (m t)

end Definitions

variable {s s' t : Session} {es es' : List Estimate} {lost : List Reply} {e : Error}

/-- There is nothing to keep. -/
theorem Session.Keeps.nil (s : Session) : s.Keeps [] :=
  fun _ _ _ => rfl

/-- No place is made or lost on the way, so what keeps the parts keeps both. -/
theorem Session.Keeps.append (h : s.Keeps es) (haccounts : Accounts s t es lost)
    (h' : t.Keeps es') : s.Keeps (es ++ es') := by
  intro path hcustom hplace
  rw [h path hcustom hplace, h' path (haccounts.custom.trans hcustom), List.append_nil]
  rw [haccounts.files, Files.place?_keep]
  exact hplace

/-- What came before a step that stops is part of its account. -/
theorem Settled.before (haccounts : Accounts s t es []) (hkeeps : s.Keeps es)
    (h : Settled t s' e) : Settled s s' e := by
  cases h with
  | kept e es' haccounts' hkeeps' =>
      exact .kept e _ (haccounts.append haccounts') (hkeeps.append haccounts hkeeps')
  | overflow es' r haccounts' hkeeps' =>
      exact .overflow _ r (haccounts.append haccounts') (hkeeps.append haccounts hkeeps')
  | unwritten e path fault hcustom hplace haccounts' =>
      -- Where no record can be kept, nothing was estimated before.
      have hcustom' := haccounts.custom.symm.trans hcustom
      rw [haccounts.files, Files.place?_keep] at hplace
      have hes := hkeeps path hcustom' hplace
      subst hes
      exact .unwritten e path fault hcustom' hplace (haccounts.append haccounts')

/-- The estimates of a step that stops, and what was lost. -/
theorem Settled.accounts (h : Settled s s' e) : ∃ es lost, Accounts s s' es lost ∧
    lost.length ≤ 1 ∧ (e ≠ .costOverflow → lost = []) := by
  cases h with
  | kept e es haccounts hkeeps => exact ⟨es, [], haccounts, Nat.zero_le 1, fun _ => rfl⟩
  | overflow es r haccounts hkeeps =>
      exact ⟨es, [r], haccounts, Nat.le_refl 1, fun hne => absurd rfl hne⟩
  | unwritten e path fault hcustom hplace haccounts =>
      exact ⟨[e], [], haccounts, Nat.zero_le 1, fun _ => rfl⟩

section Rules

variable {σ α β : Type} {session : σ → Session} {m : EStateM Error σ α} {k : α → EStateM Error σ β}

/-- What came before is part of the account of a result. -/
theorem Ended.before {r : EStateM.Result Error σ α} (haccounts : Accounts s t es [])
    (hkeeps : s.Keeps es) (h : Ended session t r) : Ended session s r := by
  cases r with
  | ok a t' =>
      rcases h with ⟨es', haccounts', hkeeps'⟩
      exact ⟨_, haccounts.append haccounts', hkeeps.append haccounts hkeeps'⟩
  | error e t' => exact Settled.before haccounts hkeeps h

/-- A step that leaves alone what answers depend on. -/
theorem accounted_of_pricing_eq
    (h : ∀ t, (session (endState (m t))).pricing = (session t).pricing) : Accounted session m := by
  intro t
  have hsame := h t
  cases hrun : m t with
  | ok a t' =>
      rw [hrun] at hsame
      exact ⟨[], .of_pricing_eq hsame, .nil _⟩
  | error e t' =>
      rw [hrun] at hsame
      exact .kept e [] (.of_pricing_eq hsame) (.nil _)

/-- Returning has an empty account. -/
theorem accounted_pure (a : α) : Accounted session (pure a : EStateM Error σ α) :=
  accounted_of_pricing_eq fun _ => rfl

/-- A sequence has an account from a state on if its first part has one, and the
    rest has one wherever it starts. -/
theorem Ended.bind {t : σ} (hm : Ended session s (m t))
    (hk : ∀ a t', m t = .ok a t' → Accounted session (k a)) : Ended session s ((m >>= k) t) := by
  rw [bind_apply]
  cases hrun : m t with
  | ok a t' =>
      rw [hrun] at hm
      rcases hm with ⟨es, haccounts, hkeeps⟩
      exact (hk a t' hrun t').before haccounts hkeeps
  | error e t' =>
      rw [hrun] at hm
      exact hm

/-- The account of a sequence is that of its parts. -/
theorem accounted_bind (hm : Accounted session m)
    (hk : ∀ t a t', m t = .ok a t' → Accounted session (k a)) : Accounted session (m >>= k) :=
  fun t => (hm t).bind (hk t)

end Rules

end Steps

section Questions

variable {s s' : Session}

/-- Looking up a cost has an empty account. -/
theorem accounted_requireCost (key : String) : Accounted id (Session.requireCost key) := by
  refine accounted_of_pricing_eq fun s => ?_
  rw [requireCost_run]
  cases s.metrics.require key <;> rfl

/-- So has looking up that of a source. -/
theorem accounted_sourceCost (value width : Nat) :
    Accounted id (Lowering.sourceCost value width) := by
  intro s
  unfold Lowering.sourceCost
  rw [get_bind_apply]
  cases s.metrics.lookup (Lowering.sourceKey value width) with
  | some cost => exact accounted_pure cost s
  | none => exact accounted_requireCost _ s

/-- A cost that has no entry is entered at the end of the table. -/
theorem put_new (key : String) (cost : Cost) (table : MetricsTable)
    (h : List.lookup key table = none) :
    MetricsTable.put key cost table = table ++ [(key, cost)] := by
  induction table with
  | nil => rfl
  | cons entry rest ih =>
      rcases entry with ⟨k, c⟩
      rw [List.lookup_eq_none_iff, List.forall_mem_cons] at h
      -- Nothing is replaced, since no entry has the key.
      have hne : k ≠ key := fun heq => bne_iff_ne.mp h.1 heq.symm
      rw [MetricsTable.put, if_neg hne, ih (List.lookup_eq_none_iff.mpr h.2)]
      rfl

/-- A cost that cannot be made from a reply is out of range. -/
theorem normalize_error (raw : RawCost) (r : EstimateRequest) (latch twoToOne : Cost) (e : Error)
    (h : raw.normalize r latch twoToOne = .error e) : e = .costOverflow := by
  unfold RawCost.normalize addDelays at h
  cases hsum : (Number.addSigned64? (Binary64.truncate (raw.delay * unitFactor 12))
      twoToOne.delay).bind (Number.addSigned64? · latch.delay) with
  | some total =>
      simp only [hsum] at h
      cases h
  | none =>
      simp only [hsum] at h
      cases h
      rfl

section Estimating

variable {est : Estimator} {fu : FunctionalUnit}

/-- A request without an answer changes the count of requests only. -/
theorem Accounts.of_fault (hest : s.estimator = some est) (fault : SynthesisFault)
    (hfault : est.answer s.requests (fu.graph.request fu) = .error fault) :
    Accounts s { s with requests := s.requests ++ [fu.graph.request fu] } [] [] := by
  refine { Accounts.of_pricing_eq (s := s) rfl with asked := ⟨_, rfl, ?_⟩ }
  simp only [Session.answers, hest, Estimator.answers, hfault]
  rfl

variable (hest : s.estimator = some est) (habsent : s.metrics.lookup fu.key = none)
  (hcomputes : fu.isForward = false)

include hest habsent hcomputes

/-- An answer is lost if nothing comes of it. -/
theorem Accounts.of_reply (raw : RawCost)
    (hraw : est.answer s.requests (fu.graph.request fu) = .ok raw) :
    Accounts s { s with requests := s.requests ++ [fu.graph.request fu] } [] [⟨fu, raw⟩] := by
  refine { Accounts.of_pricing_eq (s := s) rfl with
    asked := ⟨_, rfl, ?_⟩, fresh := ?_, distinct := ?_ }
  · simp only [Session.answers, hest, Estimator.answers, hraw]
    rfl
  · rw [List.map_nil, List.nil_append, List.forall_mem_singleton]
    exact ⟨habsent, hcomputes⟩
  · simp

/-- An answer that becomes a cost is entered, and its record is kept. -/
theorem Accounts.of_estimate (raw : RawCost) (latch twoToOne cost : Cost) (files : Files)
    (hraw : est.answer s.requests (fu.graph.request fu) = .ok raw)
    (hlatch : s.metrics.lookup Session.latchKey = some latch)
    (hjoin : s.metrics.lookup Session.twoToOneKey = some twoToOne)
    (hcost : raw.normalize (fu.graph.request fu) latch twoToOne = .ok cost)
    (hfiles : files = s.files.keep s.custom [(normalizeKey fu.key, cost)]) :
    Accounts s { s with
      requests := s.requests ++ [fu.graph.request fu]
      metrics := s.metrics ++ [(normalizeKey fu.key, cost)]
      files } [⟨⟨fu, raw⟩, cost⟩] [] := by
  -- Until the answer becomes a cost the account is the same.
  have hreply := Accounts.of_reply hest habsent hcomputes raw hraw
  have hkept : ∀ key c, s.metrics.lookup key = some c →
      MetricsTable.lookup (s.metrics ++ [(normalizeKey fu.key, cost)]) key = some c := by
    intro key c hkey
    unfold MetricsTable.lookup at hkey ⊢
    rw [List.lookup_append, hkey, Option.some_or]
  refine ⟨rfl, rfl, hreply.asked, ?_, rfl, hfiles, hreply.fresh, hreply.distinct⟩
  rw [List.forall_mem_singleton]
  exact ⟨latch, twoToOne, hkept _ _ hlatch, hkept _ _ hjoin, hcost⟩

/-- However estimating ends, it has an account. -/
theorem ended_synthesize : Ended id s (Session.synthesize est fu fu.graph s) := by
  -- What the question requires is an entry of the table it starts with.
  have hrequire : ∀ key cost, s.metrics.require key = .ok cost →
      s.metrics.lookup key = some cost := by
    intro key cost h
    refine (requireCost_ok key cost s s ?_).1
    rw [requireCost_run, h]
  rw [synthesize_run est fu _ s habsent]
  cases hlatch : s.metrics.require Session.latchKey with
  | error e => exact .kept e [] (.of_pricing_eq rfl) (.nil s)
  | ok latch =>
  cases hjoin : s.metrics.require Session.twoToOneKey with
  | error e => exact .kept e [] (.of_pricing_eq rfl) (.nil s)
  | ok twoToOne =>
  dsimp only
  cases hraw : est.answer s.requests (fu.graph.request fu) with
  | error fault => exact .kept _ [] (.of_fault hest fault hraw) (.nil s)
  | ok raw =>
  dsimp only
  cases hcost : raw.normalize (fu.graph.request fu) latch twoToOne with
  | error e =>
      rw [normalize_error raw _ latch twoToOne e hcost]
      exact .overflow [] ⟨fu, raw⟩ (.of_reply hest habsent hcomputes raw hraw) (.nil s)
  | ok cost =>
  -- From here on there is an entry, and what is left is to keep its record.
  dsimp only
  rw [put_new (normalizeKey fu.key) cost s.metrics habsent]
  have haccounts := fun files => Accounts.of_estimate hest habsent hcomputes raw latch twoToOne cost
    files hraw (hrequire _ _ hlatch) (hrequire _ _ hjoin) hcost
  cases hcustom : s.custom with
  | none =>
      simp only [hcustom] at haccounts
      refine ⟨_, haccounts s.files rfl, fun path hpath => ?_⟩
      rw [hcustom] at hpath
      cases hpath
  | some path =>
  simp only [hcustom] at haccounts
  dsimp only
  cases happend : s.files.append path (recordLine (normalizeKey fu.key) cost) with
  | ok files =>
      have happended : s.files.appendRecords path [(normalizeKey fu.key, cost)] = .ok files :=
        except_bind_ok_iff.mpr ⟨files, happend, rfl⟩
      refine ⟨_, haccounts files (Files.keep_of_appendRecords _ happended).symm, ?_⟩
      intro path' hpath hplace
      rcases (Files.append_ok_iff _ _ _ _).mp happend with ⟨p, hp, _⟩
      rw [hcustom, Option.some.injEq] at hpath
      rw [← hpath, hp] at hplace
      cases hplace
  | error e =>
      rcases Files.append_error _ e happend with ⟨hplace, fault, rfl⟩
      exact .unwritten ⟨⟨fu, raw⟩, cost⟩ path fault hcustom hplace
        (haccounts s.files (Files.keep_unplaced _ hplace).symm)

end Estimating

/-- The question that can lead to an estimate. -/
theorem accounted_unitCost (fu : FunctionalUnit) :
    Accounted id (Session.unitCost fu fu.graph) := by
  intro s
  unfold Session.unitCost
  rw [get_bind_apply]
  cases hlook : s.metrics.lookup fu.key with
  | some cost => exact accounted_pure (some cost) s
  | none =>
  -- Only a unit that computes something is worth an estimate.
  by_cases hforward : fu.isForward = true
  · simp only [if_pos hforward]
    exact accounted_pure none s
  · simp only [if_neg hforward]
    cases hest : s.estimator with
    | none => exact ⟨[], .of_pricing_eq rfl, .nil s⟩
    | some est =>
        have hended := ended_synthesize hest hlook (Bool.eq_false_iff.mpr hforward)
        exact hended.bind fun cost _ _ => accounted_pure (some cost)

end Questions

section Lowering

/-- A step that does not see the answers leaves them alone. -/
theorem accounted_of_commutes {α : Type} {m : Lowering.Step α}
    (h : ∀ P, Commutes (Lowering.priced P) m) : Accounted Lowering.session m := by
  refine accounted_of_pricing_eq fun l => ?_
  -- Under its own answers a state is itself.
  have hsame : m l = mapState (Lowering.priced l.session.pricing) (m l) := h l.session.pricing l
  rw [hsame]
  cases m l <;> rfl

/-- A step of the session has the account that it has there. -/
theorem accounted_onSession {α : Type} {step : Session.Step α} (h : Accounted id step) :
    Accounted Lowering.session (Lowering.onSession step) := by
  intro l
  have hended := h l.session
  unfold Lowering.onSession
  cases hrun : step l.session with
  | ok a s =>
      rw [hrun] at hended
      exact hended
  | error e s =>
      rw [hrun] at hended
      exact hended

/-- Every operation of lowering has an account. -/
theorem closed_accounted : Lowering.Closed fun _ m => Accounted Lowering.session m :=
  Lowering.closed_of_commutes accounted_of_commutes
    (fun _ hm hpost hk => accounted_bind hm fun l a l' hrun => hk a (hpost l a l' hrun))
    (fun _ hk l => hk l l)
    (fun key => accounted_onSession (accounted_requireCost key))
    (fun value width => accounted_onSession (accounted_sourceCost value width))
    (fun fu _ => accounted_onSession (accounted_unitCost fu))

/-- Lowering a process has an account. -/
theorem accounted_lowerProcess (p : Process) : Accounted id (lowerProcess p) := by
  intro s
  rcases lowerProcess_ends p s with ⟨e, hrun⟩ | ⟨uses, plan, hrun⟩
  · rw [hrun]
    exact .kept e [] (.of_pricing_eq rfl) (.nil s)
  -- What comes before the copies asks nothing.
  · have hended := (closed_accounted.seq (closed_accounted.lowerCopies plan.copies) fun _ =>
      closed_accounted.lowerElements ⟨p, uses⟩ p.elements)
        ⟨s, plan, .ofNames p.scope.names, p.declarations⟩
    rw [hrun]
    split
    · rename_i hsteps
      rw [hsteps] at hended
      exact hended
    · rename_i hsteps
      rw [hsteps] at hended
      exact hended

/-- So has lowering processes in order. -/
theorem accounted_lowerAll (ps : Program) : Accounted id (lowerAll ps) := by
  induction ps with
  | nil => exact accounted_pure []
  | cons p ps ih =>
      exact accounted_bind (accounted_lowerProcess p) fun _ _ _ _ =>
        accounted_bind ih fun _ _ _ _ => accounted_pure _

end Lowering

end DataflowCircuit
