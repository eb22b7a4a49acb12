import DataflowCircuit.Proofs.Compile.Rerun
import DataflowCircuit.Proofs.Cost.Estimates

/-!
# Failed Compilations

A compilation lowers every process before it writes anything. What it has done
when it fails before that is little: it has read files, logged warnings, asked an
estimator, and added records to the custom file. Every other file is as it was,
whether the metrics could not be loaded, the estimator could not be set up, the
program could not be read, or one of its processes could not be lowered.

The custom file grows by whole records, one for each unit that was estimated, in
the order of the requests. At most the last answer has none. Then it gave no cost
because a sum left its range, or its record could not be written, and that is how
the run failed.

Which files are spared is said of the places that paths lead to. Two paths can
lead to one file, and an output at the place of the custom file grows with it.

## Main definitions

* `Preserves`: A step that leaves a part of the state as it is.
* `Options.estimatorFor`: The estimator of a run.
* `Options.answers`: The requests of a run that are answered.

## Theorems

* `preserves_prepareSession`: Setting up a session writes nothing.
* `lowerInput_error`: The ways to fail before writing.
* `Files.spares_appendRecords`: Records go to one file.
* `Settled.records`: What is left of a step that stops.
* `failed_run_spares_outputs`: What is left of a compilation that fails.
-/

namespace DataflowCircuit

section Loading

variable {σ α β γ : Type}

/-- A step that leaves a part of the state as it is, however it ends. -/
def Preserves (part : σ → γ) (m : EStateM Error σ α) : Prop :=
  ∀ s, part (endState (m s)) = part s

/-- A result leaves the state as it is. -/
theorem preserves_pure (part : σ → γ) (a : α) : Preserves part (pure a : EStateM Error σ α) :=
  fun _ => rfl

/-- A sequence preserves what its parts do. -/
theorem preserves_bind {part : σ → γ} {m : EStateM Error σ α} {k : α → EStateM Error σ β}
    (hm : Preserves part m) (hk : ∀ a, Preserves part (k a)) : Preserves part (m >>= k) := by
  intro s
  rw [bind_apply]
  have hfirst := hm s
  cases hrun : m s with
  | ok a t =>
      rw [hrun] at hfirst
      exact (hk a t).trans hfirst
  | error e t =>
      rw [hrun] at hfirst
      exact hfirst

/-- What loading metrics never changes. -/
def Session.kept (s : Session) : Files × List EstimateRequest :=
  (s.files, s.requests)

/-- Loading a file changes the table and the log. -/
theorem preserves_loadMetrics (path : String) :
    Preserves Session.kept (Session.loadMetrics path) := by
  intro s
  have hrun : Session.loadMetrics path s = match loadRecords s.files path with
      | .ok records => .ok records.length { s with
          metrics := (s.metrics.insertAll records).1
          warnings := s.warnings ++ (s.metrics.insertAll records).2 }
      | .error e => .error e s := by
    unfold Session.loadMetrics
    rw [get_bind_apply, bind_apply, lift_apply]
    cases loadRecords s.files path <;> rfl
  rw [hrun]
  cases loadRecords s.files path <;> rfl

/-- So does loading several. -/
theorem preserves_loadAllMetrics (paths : List String) :
    Preserves Session.kept (loadAllMetrics paths) := by
  induction paths with
  | nil => exact preserves_pure _ ()
  | cons path paths ih => exact preserves_bind (preserves_loadMetrics path) fun _ => ih

/-- Setting up a session writes nothing and asks for nothing, even where it
    fails. -/
theorem preserves_prepareSession (programs : Programs) (o : Options) :
    Preserves Session.kept (prepareSession programs o) := by
  -- A custom file is read if it is there, and never created.
  have huse : ∀ path, Preserves Session.kept (Session.useCustomFile path) := by
    intro path s
    change Session.kept (endState ((if s.files.contains path = true then
      Session.loadMetrics path >>= fun _ => modify fun s => { s with custom := some path }
      else modify fun s => { s with custom := some path } : Session.Step Unit) s)) = _
    split
    · exact preserves_bind (preserves_loadMetrics path) (fun _ _ => rfl) s
    · rfl
  refine preserves_bind (preserves_loadAllMetrics o.metrics) fun _ => ?_
  -- Setting up an estimator starts no program.
  have hestimator : ∀ command, Preserves Session.kept (do
      let est ← Session.lift (Estimator.ofCommand programs command)
      modify fun s => { s with estimator := some est }) := by
    intro command s
    cases Estimator.ofCommand programs command <;> rfl
  cases o.customMetrics with
  | none =>
    cases o.estimator with
    | none => exact fun _ => rfl
    | some command => exact hestimator command
  | some path =>
    cases o.estimator with
    | none => exact preserves_bind (huse path) fun _ _ => rfl
    | some command => exact preserves_bind (huse path) fun _ => hestimator command

/-- The estimator that options name, if there is one. -/
def Options.estimatorFor (o : Options) (programs : Programs) : Option Estimator :=
  o.estimator.bind fun command => (Estimator.ofCommand programs command).toOption

/-- A session that is set up has the custom file and the estimator of the
    options. -/
theorem prepareSession_ok (programs : Programs) (o : Options) (s s' : Session)
    (hcustom : s.custom = none) (hestimator : s.estimator = none)
    (h : prepareSession programs o s = .ok () s') :
    s'.custom = o.customMetrics ∧ s'.estimator = o.estimatorFor programs := by
  rcases bind_ok_iff.mp h with ⟨_, t, hload, h⟩
  have hframe := loadAllMetrics_frame _ _ _ hload
  have hcustom' : t.custom = none := (congrArg Session.custom hframe).trans hcustom
  have hestimator' : t.estimator = none := (congrArg Session.estimator hframe).trans hestimator
  -- Loading may come before it, and the path is noted either way.
  have huse : ∀ path u, Session.useCustomFile path t = .ok () u →
      u.custom = some path ∧ u.estimator = none := by
    intro path u huse
    rcases bind_ok_iff.mp huse with ⟨s₀, t', hget, huse⟩
    rcases get_ok_iff.mp hget with ⟨rfl, rfl⟩
    split at huse
    · rcases bind_ok_iff.mp huse with ⟨n, v, hmetrics, hmod⟩
      rcases (loadMetrics_ok_iff _ _ _ _).mp hmetrics with ⟨records, _, _, rfl⟩
      rw [← modify_ok_iff.mp hmod]
      exact ⟨rfl, hestimator'⟩
    · rw [← modify_ok_iff.mp huse]
      exact ⟨rfl, hestimator'⟩
  have hset : ∀ (u : Session) command, (do
      let est ← Session.lift (Estimator.ofCommand programs command)
      modify fun s => { s with estimator := some est } : Session.Step Unit) u = .ok () s' →
        s'.custom = u.custom ∧
          s'.estimator = (Estimator.ofCommand programs command).toOption := by
    intro u command hstep
    rcases bind_ok_iff.mp hstep with ⟨est, v, hlift, hmod⟩
    rcases lift_ok _ _ _ _ hlift with ⟨hest, rfl⟩
    rw [← modify_ok_iff.mp hmod, hest]
    exact ⟨rfl, rfl⟩
  -- The custom file is set before the estimator, and each leaves the other alone.
  unfold Options.estimatorFor
  cases hpath : o.customMetrics with
  | none =>
    cases hcommand : o.estimator with
    | none =>
      rw [hpath, hcommand] at h
      rcases pure_ok_iff.mp h with ⟨_, rfl⟩
      exact ⟨hcustom', hestimator'⟩
    | some command =>
      rw [hpath, hcommand] at h
      rcases hset t command h with ⟨hc, he⟩
      exact ⟨hc.trans hcustom', he⟩
  | some path =>
    cases hcommand : o.estimator with
    | none =>
      rw [hpath, hcommand] at h
      rcases bind_ok_iff.mp h with ⟨_, u, hu, h⟩
      rcases pure_ok_iff.mp h with ⟨_, rfl⟩
      exact huse path _ hu
    | some command =>
      rw [hpath, hcommand] at h
      rcases bind_ok_iff.mp h with ⟨_, u, hu, h⟩
      rcases hset u command h with ⟨hc, he⟩
      exact ⟨hc.trans (huse path u hu).1, he⟩

end Loading

section Stopping

/-- A step of the session fails exactly if it does on the files of the machine.
    -/
theorem Job.onSession_error_iff {α : Type} (level : LogLevel) (step : Session.Step α) (s : Session)
    (e : Error) (job job' : Job) :
    Job.onSession level step s job = .error e job' ↔
      ∃ t, step { s with files := job.machine.files, warnings := [] } = .error e t ∧
        Job.absorb level t job = job' := by
  unfold Job.onSession
  cases step { s with files := job.machine.files, warnings := [] } with
  | ok a t => simp
  | error e' t =>
      simp only [EStateM.Result.error.injEq]
      constructor
      · rintro ⟨rfl, h⟩
        exact ⟨t, ⟨rfl, rfl⟩, h⟩
      · rintro ⟨t', ⟨rfl, rfl⟩, h⟩
        exact ⟨rfl, h⟩

/-- A lifted failure leaves the machine alone. -/
theorem Job.lift_error {α : Type} (x : Except Error α) (e : Error) (job job' : Job)
    (h : Job.lift x job = .error e job') : job' = job := by
  cases x with
  | ok a => cases h
  | error e' =>
      cases h
      rfl

/-- How reading and lowering fails: before anything is lowered, with the files as
    they were and nothing asked, or while lowering. -/
theorem lowerInput_error (programs : Programs) (o : Options) (m : Machine) (e : Error) (job : Job)
    (h : lowerInput programs o ⟨m, [], []⟩ = .error e job) :
    job.machine.stdout = m.stdout ∧ (job.machine.files = m.files ∧ job.requests = [] ∨
      ∃ s s' processes,
        prepareSession programs o (Session.start o.pipeline m.files) = .ok () s ∧
        lowerAll processes { s with warnings := [] } = .error e s' ∧
        job.machine.files = s'.files ∧ job.requests = s'.requests) := by
  have hkept := preserves_prepareSession programs o (Session.start o.pipeline m.files)
  -- The steps are taken apart in order. Up to lowering they leave the files as
  -- they are, whichever of them fails.
  rcases bind_error_iff.mp h with hprepare | ⟨⟨_, s⟩, j₁, hprepare, h⟩
  · rcases (Job.onSession_error_iff _ _ _ _ _ _).mp hprepare with ⟨t, hsession, rfl⟩
    change prepareSession programs o (Session.start o.pipeline m.files) = .error e t at hsession
    rw [hsession] at hkept
    rcases Prod.mk.inj hkept with ⟨hfiles, hrequests⟩
    exact ⟨rfl, Or.inl ⟨hfiles, hrequests⟩⟩
  rcases Job.onSession_ok_iff.mp hprepare with ⟨hsession, rfl⟩
  change prepareSession programs o (Session.start o.pipeline m.files) = .ok () s at hsession
  rw [hsession] at hkept
  rcases Prod.mk.inj hkept with ⟨hfiles, hrequests⟩
  -- Reading the state cannot fail.
  rcases bind_error_iff.mp h with hget | ⟨_, _, hget, h⟩
  · cases hget
  rcases get_ok_iff.mp hget with ⟨rfl, rfl⟩
  rcases bind_error_iff.mp h with hread | ⟨program, _, hread, h⟩
  · rw [Job.lift_error _ _ _ _ hread]
    exact ⟨rfl, Or.inl ⟨hfiles, hrequests⟩⟩
  rcases Job.lift_ok_iff.mp hread with ⟨_, rfl⟩
  rcases bind_error_iff.mp h with hresolve | ⟨processes, _, hresolve, h⟩
  · rw [Job.lift_error _ _ _ _ hresolve]
    exact ⟨rfl, Or.inl ⟨hfiles, hrequests⟩⟩
  rcases Job.lift_ok_iff.mp hresolve with ⟨_, rfl⟩
  -- A dump goes to standard error, of which nothing is said.
  dsimp only at h
  rw [Options.dump_run] at h
  rcases (Job.onSession_error_iff _ _ _ _ _ _).mp h with ⟨s', hlower, rfl⟩
  exact ⟨rfl, Or.inr ⟨s, s', processes, hsession, hlower, rfl, rfl⟩⟩

end Stopping

namespace Files

variable {fs fs' : Files} {path : String}

/-- Sparing goes both ways. -/
theorem Spares.symm (h : Spares fs fs' path) : Spares fs' fs path := by
  refine ⟨h.tree.symm, fun p hp => (h.contents p ?_).symm⟩
  rw [← h.tree.place?_eq]
  exact hp

/-- A file that is spared is there if it was, with the contents that it had. -/
theorem Spares.same (h : Spares fs fs' path) : fs'.contains path = fs.contains path ∧
    ∀ c, fs'.read path = .ok c ↔ fs.read path = .ok c := by
  refine ⟨?_, fun c => ⟨h.symm.read_ok c, h.read_ok c⟩⟩
  cases hcontains : fs.contains path with
  | false => exact h.contains_eq_false hcontains
  | true =>
      -- If it were gone, it would have been missing from the start.
      by_contra hne
      rw [h.symm.contains_eq_false (Bool.eq_false_iff.mpr hne)] at hcontains
      cases hcontains

/-- Appending records spares every file but the one they are appended to. -/
theorem spares_appendRecords (custom : String) (rs : List (String × Cost))
    (happend : fs.appendRecords custom rs = .ok fs')
    (hapart : ∀ p, fs.place? path = some p → fs.place? custom ≠ some p) :
    Spares fs fs' path := by
  -- Without a record nothing is written, so the file may even be out of reach.
  by_cases hnil : rs = []
  · rw [hnil] at happend
    cases happend
    exact ⟨.refl fs, fun _ _ => rfl⟩
  · cases hplace : fs.place? custom with
    | none =>
        rw [← keep_of_appendRecords rs happend, keep_unplaced rs hplace]
        exact ⟨.refl fs, fun _ _ => rfl⟩
    | some p =>
        rw [appendRecords_eq fs custom p rs hplace hnil] at happend
        cases happend
        exact spares_set custom p _ hplace fun hp => hapart p hp hplace

/-- The text of a file with records behind it. -/
theorem read_appendRecords (text : String) (rs : List (String × Cost))
    (happend : fs.appendRecords path rs = .ok fs') (hread : fs.read path = .ok (.text text)) :
    fs'.read path = .ok (.text (text ++ recordLines rs)) := by
  -- Without a record the text stays as it is.
  by_cases hnil : rs = []
  · rw [hnil] at happend ⊢
    cases happend
    simpa [recordLines] using hread
  · rcases (read_ok_iff fs path _).mp hread with ⟨p, hp, hlook⟩
    rw [appendRecords_eq fs path p rs hp hnil, hlook] at happend
    cases happend
    exact read_set hp _

end Files

section Failing

variable {s s' : Session} {es : List Estimate} {lost : List Reply} {e : Error}

/-- Where estimates are only made if they can be kept, their records are in the
    custom file. -/
theorem Accounts.appended (h : Accounts s s' es lost) (hkeeps : s.Keeps es) (path : String)
    (hcustom : s.custom = some path) :
    s.files.appendRecords path (es.map Estimate.record) = .ok s'.files := by
  rw [h.files, hcustom]
  cases hp : s.files.place? path with
  | none =>
      rw [hkeeps path hcustom hp]
      rfl
  | some p => exact Files.appendRecords_keep _ p hp

/-- What is left of a step that stops: records of what became costs. At most the
    last answer has none, because it gave no cost or the record could not be
    written. -/
theorem Settled.records (h : Settled s s' e) : ∃ (es : List Estimate) (lost : List Reply),
    (∃ rs, s'.requests = s.requests ++ rs ∧
      s.answers rs = (es.map Estimate.toReply ++ lost).map Reply.answer) ∧
    ((es.map Estimate.toReply ++ lost).map fun r => normalizeKey r.unit.key).Nodup ∧
    lost.length ≤ 1 ∧
    (lost ≠ [] → e = .costOverflow ∨
      ∃ path fault, s.custom = some path ∧ e = .cannotWrite path fault) ∧
    (s.custom = none → s'.files = s.files) ∧
    ∀ path, s.custom = some path →
      s.files.appendRecords path (es.map Estimate.record) = .ok s'.files := by
  have hnone : ∀ es lost, Accounts s s' es lost → s.custom = none → s'.files = s.files := by
    intro es lost haccounts hcustom
    rw [haccounts.files, hcustom]
    rfl
  cases h with
  | kept e es haccounts hkeeps =>
      exact ⟨es, [], haccounts.asked, haccounts.distinct, Nat.zero_le 1,
        fun hne => absurd rfl hne, hnone _ _ haccounts, haccounts.appended hkeeps⟩
  | overflow es r haccounts hkeeps =>
      exact ⟨es, [r], haccounts.asked, haccounts.distinct, Nat.le_refl 1, fun _ => Or.inl rfl,
        hnone _ _ haccounts, haccounts.appended hkeeps⟩
  | unwritten e path fault hcustom hplace haccounts =>
      -- An entry without a record counts as lost here.
      refine ⟨[], [e.toReply], haccounts.asked, haccounts.distinct, Nat.le_refl 1,
        fun _ => Or.inr ⟨path, fault, hcustom, rfl⟩, hnone _ _ haccounts, fun path' hpath => ?_⟩
      rw [haccounts.files, hcustom, Files.keep_unplaced _ hplace]
      rfl

/-- The requests among `rs` that are answered in a run with some options. -/
def Options.answers (o : Options) (programs : Programs) (rs : List EstimateRequest) :
    List (EstimateRequest × RawCost) :=
  match o.estimatorFor programs with
  | some est => est.answers [] rs
  | none => []

/-- What a failed compilation leaves: records of what became costs, in the custom
    file if there is one. -/
theorem lowerInput_records (programs : Programs) (o : Options) (m : Machine) (e : Error)
    (job : Job) (h : lowerInput programs o ⟨m, [], []⟩ = .error e job) :
    ∃ (es : List Estimate) (lost : List Reply),
      (o.customMetrics = none → job.machine.files = m.files) ∧
      (∀ custom, o.customMetrics = some custom →
        m.files.appendRecords custom (es.map Estimate.record) = .ok job.machine.files) ∧
      o.answers programs job.requests = (es.map Estimate.toReply ++ lost).map Reply.answer ∧
      ((es.map Estimate.toReply ++ lost).map fun r => normalizeKey r.unit.key).Nodup ∧
      lost.length ≤ 1 ∧ (lost ≠ [] → e = .costOverflow ∨
        ∃ custom fault, o.customMetrics = some custom ∧ e = .cannotWrite custom fault) := by
  rcases (lowerInput_error programs o m e job h).2 with
    ⟨hfiles, hrequests⟩ | ⟨s, s', processes, hprepare, hlower, hfiles, hrequests⟩
  · refine ⟨[], [], fun _ => hfiles, fun _ _ => congrArg Except.ok hfiles.symm, ?_, List.nodup_nil,
      Nat.zero_le 1, fun hne => absurd rfl hne⟩
    unfold Options.answers
    rw [hrequests]
    cases o.estimatorFor programs <;> rfl
  · -- The session starts with the files of the machine and without requests.
    have hkept := preserves_prepareSession programs o (Session.start o.pipeline m.files)
    rw [hprepare] at hkept
    rcases Prod.mk.inj hkept with ⟨hstart, hnone⟩
    change s.files = m.files at hstart
    change s.requests = [] at hnone
    rcases prepareSession_ok programs o _ s rfl rfl hprepare with ⟨hcustom, hestimator⟩
    have hended := accounted_lowerAll processes { s with warnings := [] }
    rw [hlower] at hended
    -- What lowering leaves is an account of the requests, however it stopped.
    rcases Settled.records hended with
      ⟨es, lost, ⟨rs, hrs, hanswers⟩, hdistinct, hlost, hwhy, hwithout, hwith⟩
    change s'.requests = s.requests ++ rs at hrs
    change s.custom = none → s'.files = s.files at hwithout
    change ∀ path, s.custom = some path → s.files.appendRecords path _ = .ok s'.files at hwith
    rw [hcustom, hstart, ← hfiles] at hwithout
    rw [hcustom, hstart, ← hfiles] at hwith
    refine ⟨es, lost, hwithout, hwith, ?_, hdistinct, hlost, fun hne => ?_⟩
    · rw [← hanswers, hrequests, hrs, hnone]
      unfold Options.answers Session.answers
      rw [hestimator]
      rfl
    · rcases hwhy hne with hoverflow | ⟨path, fault, hpath, he⟩
      · exact Or.inl hoverflow
      · exact Or.inr ⟨path, fault, hcustom.symm.trans hpath, he⟩

/-- A compilation that fails before it writes leaves every file but the custom
    file as it was, the outputs among them. -/
theorem failed_run_spares_outputs (programs : Programs) (o : Options) (m : Machine) (e : Error)
    (job : Job) (h : lowerInput programs o ⟨m, [], []⟩ = .error e job) :
    runCompiler programs o m = (.error e, job) ∧ job.machine.stdout = m.stdout ∧
    (∀ path, (∀ custom p, o.customMetrics = some custom → m.files.place? path = some p →
        m.files.place? custom ≠ some p) →
      job.machine.files.contains path = m.files.contains path ∧
        ∀ c, job.machine.files.read path = .ok c ↔ m.files.read path = .ok c) ∧
    ∃ (es : List Estimate) (lost : List Reply),
      (∀ custom, o.customMetrics = some custom →
        m.files.appendRecords custom (es.map Estimate.record) = .ok job.machine.files ∧
          ∀ text, m.files.read custom = .ok (.text text) → job.machine.files.read custom
            = .ok (.text (text ++ recordLines (es.map Estimate.record)))) ∧
      o.answers programs job.requests = (es.map Estimate.toReply ++ lost).map Reply.answer ∧
      ((es.map Estimate.toReply ++ lost).map fun r => normalizeKey r.unit.key).Nodup ∧
      lost.length ≤ 1 ∧ (lost ≠ [] → e = .costOverflow ∨
        ∃ custom fault, o.customMetrics = some custom ∧ e = .cannotWrite custom fault) := by
  rcases lowerInput_records programs o m e job h with
    ⟨es, lost, hwithout, hwith, hanswers, hdistinct, hlost, hwhy⟩
  refine ⟨?_, (lowerInput_error programs o m e job h).1, fun path hapart => ?_, es, lost,
    fun custom hcustom => ⟨hwith custom hcustom, fun text hread =>
      Files.read_appendRecords text _ (hwith custom hcustom) hread⟩,
    hanswers, hdistinct, hlost, hwhy⟩
  · -- Writing comes after lowering, so it does not come at all.
    have hcompile : compile programs o ⟨m, [], []⟩ = .error e job := by
      rw [compile_eq]
      exact bind_error_iff.mpr (Or.inl h)
    unfold runCompiler
    rw [hcompile]
  -- Without a custom file no file changes at all.
  · cases hcustom : o.customMetrics with
    | none =>
        rw [hwithout hcustom]
        exact ⟨rfl, fun _ => Iff.rfl⟩
    | some custom =>
        exact (Files.spares_appendRecords custom _ (hwith custom hcustom) fun p hp =>
          hapart custom p hcustom hp).same

/-- The second process fails, because nothing is known about its sink, after the
    first one was estimated. The record of the estimate stands behind the one that
    the custom file had, the old netlist is still there, and no library is. -/
theorem record_outlives_failure :
    let o : Options := { Options.default with
      output := .file "out.act" false
      lib := .file "lib.act" false
      metrics := ["std.metrics"]
      customMetrics := some "custom.metrics"
      estimator := some "estimate" }
    let m : Machine := ⟨.ofList [("std.metrics", .text "latch1 1 2 10 3\ntwoToOne 0 0 20 0\n"),
        ("custom.metrics", .text "sink_4_ 1 2 3 4\n"), ("out.act", .text "old")],
      .text ("defproc p(chan?(int<8>) a, b; chan!(int<8>) o) \x7b dataflow \x7b a + b -> o; \x7d \x7d" ++
        "defproc q(chan?(int<8>) a) \x7b dataflow \x7b a -> *; \x7d \x7d"), "", ""⟩
    let programs : Programs := fun _ _ _ => .finished 0 "100e-12 1e-3 2e-9 1000e-12" ""
    ∃ job, lowerInput programs o ⟨m, [], []⟩ = .error (.missingMetrics "sink_8_") job ∧
      runCompiler programs o m = (.error (.missingMetrics "sink_8_"), job) ∧
      job.machine.files.read "out.act" = .ok (.text "old") ∧
      job.machine.files.contains "lib.act" = false ∧
      job.machine.files.read "custom.metrics"
        = .ok (.text "sink_4_ 1 2 3 4\nfunc_0add1_8_8_8_8_8_ 21 1098 1030 153\n") := by
  intro o m programs
  have hrun : (match lowerInput programs o ⟨m, [], []⟩ with
      | .ok _ _ => none
      | .error e job => some (e, job.machine.files.read "custom.metrics"))
        = some (.missingMetrics "sink_8_",
          .ok (.text "sink_4_ 1 2 3 4\nfunc_0add1_8_8_8_8_8_ 21 1098 1030 153\n")) := by
    decide +kernel
  cases hlower : lowerInput programs o ⟨m, [], []⟩ with
  | ok r job =>
      rw [hlower] at hrun
      cases hrun
  | error e job =>
      rw [hlower] at hrun
      rcases Prod.mk.inj (Option.some.inj hrun) with ⟨rfl, hcustom⟩
      rcases failed_run_spares_outputs programs o m _ job hlower with ⟨hresult, _, hspared, _⟩
      have hapart : ∀ path ∈ ["out.act", "lib.act"], ∀ custom p,
          o.customMetrics = some custom → m.files.place? path = some p →
            m.files.place? custom ≠ some p := by
        intro path hpath custom p hsome hp hq
        cases hsome
        have hplaces : ∀ path ∈ ["out.act", "lib.act"],
            m.files.place? path ≠ m.files.place? "custom.metrics" := by decide +kernel
        exact hplaces path hpath (hp.trans hq.symm)
      refine ⟨job, rfl, hresult, ?_, ?_, hcustom⟩
      · exact ((hspared "out.act" (hapart _ (by simp))).2 _).mpr (by decide +kernel)
      · exact (hspared "lib.act" (hapart _ (by simp))).1.trans (by decide +kernel)

end Failing

end DataflowCircuit
