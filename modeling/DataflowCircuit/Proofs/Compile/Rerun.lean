import DataflowCircuit.Proofs.Compile.Persistence

/-!
# Running Again From the Custom File

A run with an estimator leaves a custom file. This file is about the run after
it, which has no estimator and loads that file: it succeeds, it lowers the
program to the same processes, and it writes what the first run wrote.

A compilation is cut where it starts to write its outputs. The first part is a
matter of costs: the second run has the last table of the first run from the
start, and lowering cannot tell the two apart. The second part is a matter of
files. The second run finds the outputs of the first one, so the two runs write
into different files, and they end up with the same ones because an output is
emptied when it is opened. Until it is opened a place may differ, from then on it
never does again, and at the end the places that were never opened are as the
first run found them.

The outputs must not go to the files that are read. A netlist that is written
over the custom file would be what the second run loads.

## Main definitions

* `lowerInput`, `writeOutputs`: The two parts of a compilation.
* `Lockstep`: Two runs that write the same.
* `Options.Apart`: Options whose outputs are none of the files that are read.

## Theorems

* `compile_eq`: A compilation is its two parts.
* `lowerInput_again`: The first part is repeated from the records.
* `writeOutputs_lockstep`: The second part is repeated on other files.
* `second_run_reproduces_first`: A whole run is repeated.
-/

namespace DataflowCircuit

/-- Load the metrics, read the program and lower it. -/
def lowerInput (programs : Programs) (o : Options) : Job.Step (List LoweredProcess × Session) := do
  let start := Session.start o.pipeline .empty
  let ((), session) ← Job.onSession o.logLevel (prepareSession programs o) start
  let program ← Job.lift (readProgram o (← get).machine)
  let processes ← Job.lift (Source.Program.resolve program)
  if o.dump then
    let _ ← Job.write .stderr (printProgram processes)
  Job.onSession o.logLevel (lowerAll processes) session

/-- Write lowered processes and their statistics. -/
def writeOutputs (o : Options) (lowered : List LoweredProcess) (stats : Statistics) :
    Job.Step Unit := do
  let backend ← (Backend.start o.output o.lib o.conf).emitAll lowered
  let _ ← backend.finish
  match o.stats with
  | some out => writeStatistics out stats
  | none => pure ()

/-- A compilation reads and lowers, and then it writes. -/
theorem compile_eq (programs : Programs) (o : Options) :
    compile programs o = (lowerInput programs o >>= fun r => writeOutputs o r.1 r.2.stats) := by
  unfold compile lowerInput writeOutputs
  cases o.dump with
  | true =>
      simp only [bind_assoc]
      rfl
  | false =>
      simp only [bind_assoc]
      rfl

section Lowering

/-- A step of the session goes through exactly if it does on the files of the
    machine, with an empty log. -/
theorem Job.onSession_ok_iff {α : Type} {level : LogLevel} {step : Session.Step α} {s : Session}
    {r : α × Session} {job job' : Job} :
    Job.onSession level step s job = .ok r job' ↔
      step { s with files := job.machine.files, warnings := [] } = .ok r.1 r.2 ∧
        Job.absorb level r.2 job = job' := by
  unfold Job.onSession
  cases step { s with files := job.machine.files, warnings := [] } with
  | ok a t =>
      simp only [EStateM.Result.ok.injEq, Prod.ext_iff]
      constructor
      · rintro ⟨⟨rfl, rfl⟩, h⟩
        exact ⟨⟨rfl, rfl⟩, h⟩
      · rintro ⟨⟨rfl, rfl⟩, h⟩
        exact ⟨⟨rfl, rfl⟩, h⟩
  | error e t => simp

/-- A lifted result goes through exactly if it is one. -/
theorem Job.lift_ok_iff {α : Type} {x : Except Error α} {a : α} {job job' : Job} :
    Job.lift x job = .ok a job' ↔ x = .ok a ∧ job = job' := by
  cases x with
  | ok b =>
      change EStateM.Result.ok b job = .ok a job' ↔ _
      simp
  | error e =>
      change EStateM.Result.error e job = .ok a job' ↔ _
      simp

/-- What goes to the log about warnings. -/
def LogLevel.log (level : LogLevel) (ws : List Warning) : String :=
  if level.showsWarnings then String.join (ws.map Warning.logLine) else ""

/-- What goes to the log about a program. -/
def Options.dumpText (o : Options) (processes : Program) : String :=
  if o.dump then printProgram processes else ""

/-- What a machine is after a program was lowered: the files are those of the
    session, and the log has grown. -/
def Machine.lowered (m : Machine) (o : Options) (s s' : Session) (processes : Program) : Machine :=
  { m with
    files := s'.files
    stderr := m.stderr ++ o.logLevel.log s.warnings ++ o.dumpText processes
      ++ o.logLevel.log s'.warnings }

/-- The dump goes to the log and changes nothing else. -/
theorem Options.dump_run {α : Type} (o : Options) (processes : Program) (job : Job)
    (k : Job.Step α) :
    (if o.dump = true then (Job.write .stderr (printProgram processes) >>= fun _ => k) else k) job
      = k { job with machine := { job.machine with
          stderr := job.machine.stderr ++ o.dumpText processes } } := by
  unfold Options.dumpText
  cases o.dump with
  | true => rfl
  | false => simp

/-- A program is lowered from what the machine holds. -/
theorem lowerInput_ok_iff (programs : Programs) (o : Options) (m : Machine)
    (lowered : List LoweredProcess) (s' : Session) (job : Job) :
    lowerInput programs o ⟨m, [], []⟩ = .ok (lowered, s') job ↔ ∃ s program processes,
      prepareSession programs o (Session.start o.pipeline m.files) = .ok () s ∧
        readProgram o { m with files := s.files } = .ok program ∧
          program.resolve = .ok processes ∧
            lowerAll processes { s with warnings := [] } = .ok lowered s' ∧
              job = ⟨m.lowered o s s' processes, s.warnings ++ s'.warnings, s'.requests⟩ := by
  unfold lowerInput
  constructor
  · intro h
    -- The steps are taken apart in order, and each leaves the machine to the next.
    rcases bind_ok_iff.mp h with ⟨⟨_, s⟩, j₁, hprepare, h⟩
    rcases Job.onSession_ok_iff.mp hprepare with ⟨hsession, rfl⟩
    rcases bind_ok_iff.mp h with ⟨_, _, hget, h⟩
    rcases get_ok_iff.mp hget with ⟨rfl, rfl⟩
    rcases bind_ok_iff.mp h with ⟨program, _, hread, h⟩
    rcases Job.lift_ok_iff.mp hread with ⟨hprogram, rfl⟩
    rcases bind_ok_iff.mp h with ⟨processes, _, hresolve, h⟩
    rcases Job.lift_ok_iff.mp hresolve with ⟨hprocesses, rfl⟩
    dsimp only at h
    rw [Options.dump_run] at h
    rcases Job.onSession_ok_iff.mp h with ⟨hlower, rfl⟩
    exact ⟨s, program, processes, hsession, hprogram, hprocesses, hlower, rfl⟩
  · rintro ⟨s, program, processes, hsession, hprogram, hprocesses, hlower, rfl⟩
    refine bind_ok_iff.mpr ⟨((), s), _,
      Job.onSession_ok_iff.mpr ⟨hsession, rfl⟩, ?_⟩
    refine bind_ok_iff.mpr ⟨_, _, rfl, ?_⟩
    refine bind_ok_iff.mpr ⟨program, _,
      Job.lift_ok_iff.mpr ⟨hprogram, rfl⟩, ?_⟩
    refine bind_ok_iff.mpr ⟨processes, _,
      Job.lift_ok_iff.mpr ⟨hprocesses, rfl⟩, ?_⟩
    dsimp only
    rw [Options.dump_run]
    exact Job.onSession_ok_iff.mpr ⟨hlower, rfl⟩

/-- A program is read again from a file that is read as before. -/
theorem readProgram_again (o : Options) (m m' : Machine) (program : Source.Program)
    (h : readProgram o m = .ok program) (hstdin : m'.stdin = m.stdin)
    (hsame : ∀ path ∈ o.pathsRead, ∀ c, m.files.read path = .ok c → m'.files.read path = .ok c) :
    readProgram o m' = .ok program := by
  unfold readProgram at h ⊢
  -- The program comes from standard input or from a file.
  cases hinput : o.input? with
  | none =>
      rw [hinput] at h
      rw [hstdin]
      exact h
  | some path =>
      rw [hinput] at h
      have hpath : path ∈ o.pathsRead := by
        unfold Options.pathsRead
        rw [hinput]
        exact List.mem_cons_self
      cases hread : m.files.read path with
      | error fault =>
          simp only [hread] at h
          cases h
      | ok c =>
          simp only [hread] at h
          simp only [hsame path hpath c hread]
          exact h

/-- What the first part of a run leaves for the next one: the files that were
    read are spared, the custom file holds records, and from files that are read
    as these are, the program is lowered again without an estimator. -/
structure Repeatable (programs : Programs) (o : Options) (custom : String) (m : Machine)
    (lowered : List LoweredProcess) (session : Session) (job : Job) : Prop where
  tree : Files.SameTree m.files job.machine.files
  spares : ∀ path c, m.files.read path = .ok c → m.files.Spares job.machine.files path
  stdin : job.machine.stdin = m.stdin
  again : ∃ rs text, job.machine.files.HoldsRecords custom rs ∧
    job.machine.stdout = m.stdout ∧ job.machine.stderr = m.stderr ++ text ∧
    ∀ m' : Machine, m'.stdin = m.stdin →
      (∀ path ∈ o.pathsRead, ∀ c, m.files.read path = .ok c → m'.files.read path = .ok c) →
      m'.files.HoldsRecords custom rs → ∃ session' job',
        lowerInput programs { o with estimator := none } ⟨m', [], []⟩
          = .ok (lowered, session') job' ∧
        session'.stats = session.stats ∧ job'.machine.files = m'.files ∧
        job'.machine.stdout = m'.stdout ∧ job'.machine.stderr = m'.stderr ++ text

/-- The first part of a run is repeated from the records that it made. -/
theorem lowerInput_again (programs programs' : Programs) (o : Options) (custom command : String)
    (m : Machine) (lowered : List LoweredProcess) (session : Session) (job : Job)
    (hcustom : o.customMetrics = some custom) (hestimator : o.estimator = some command)
    (habsent : m.files.contains custom = false)
    (h : lowerInput programs o ⟨m, [], []⟩ = .ok (lowered, session) job) :
    Repeatable programs' o custom m lowered session job := by
  rcases (lowerInput_ok_iff _ _ _ _ _ _).mp h with
    ⟨s, program, processes, hprepare, hread, hresolve, hlower, rfl⟩
  -- Loading changes no files, so the custom file is absent when its turn comes.
  have hloaded : ∀ t, loadAllMetrics o.metrics (Session.start o.pipeline m.files) = .ok () t →
      t.files = m.files := fun t ht => congrArg Session.files (loadAllMetrics_frame _ _ t ht)
  rcases prepareSession_first programs o custom command _ s hcustom hestimator hprepare
    (fun t ht => by rw [hloaded t ht]; exact habsent) with ⟨t, est, hload, rfl⟩
  have hfiles := hloaded t hload
  have hnone : t.estimator = none :=
    congrArg Session.estimator (loadAllMetrics_frame _ _ t hload)
  -- What was learned is in records, and these are in the custom file.
  rcases recorded_lowerAll processes custom _ session lowered rfl (Option.some_ne_none est) hlower
    with ⟨rs, hrs⟩
  have hrecorded : m.files.appendRecords custom rs = .ok session.files := by
    rw [← hfiles]
    exact hrs.file
  rcases Files.holdsRecords_appendRecords rs hrs.storable habsent hrecorded with
    ⟨htree, hholds, hspares⟩
  refine ⟨htree, hspares, rfl, rs, o.logLevel.log t.warnings ++ o.dumpText processes
    ++ o.logLevel.log session.warnings, hholds, rfl, ?_, fun m' hstdin hsame hholds' => ?_⟩
  · simp only [Machine.lowered, String.append_assoc]
  · -- The second session differs from the first one in what answers depend on.
    let P : Pricing := ⟨session.metrics, some custom, none, t.requests, m'.files⟩
    have hload' := (loadAllMetrics_again o.metrics _ t m'.files hload fun path hpath =>
      hsame path (List.mem_append_left _ (List.mem_append_right _ hpath)))
    have hprepare' := prepareSession_again programs' { o with estimator := none } custom rs
      session.metrics _ _ hcustom rfl hload' hholds' hrs.table
    -- The last table answers as it did, and there is no one left to ask.
    have hcovers : P.Covers session :=
      ⟨rfl, fun _ _ hkey => hkey, fun _ hnone hsome => absurd hnone hsome⟩
    have hlower' := (replays_lowerAll processes _ lowered session hlower
      (Option.some_ne_none est)).2 P hcovers
    refine ⟨session.priced P, _, (lowerInput_ok_iff _ _ _ _ _ _).mpr ⟨_, program, processes,
      hprepare', ?_, hresolve, ?_, rfl⟩, rfl, rfl, rfl, ?_⟩
    · refine readProgram_again o _ _ program hread hstdin ?_
      rw [show (({ m with files := t.files } : Machine)).files = m.files from hfiles]
      exact hsame
    -- Loading the records brings the second session to the last table of the first.
    · have hstart : ({ t with
          metrics := session.metrics, custom := some custom, files := m'.files, warnings := [] } :
          Session) = Session.priced P { t with
            custom := some custom, estimator := some est, warnings := [] } := by
        unfold Session.priced
        rw [hnone]
      rw [← hstart] at hlower'
      exact hlower'
    · simp only [Machine.lowered, String.append_assoc]
      rfl

end Lowering

section Writing

/-- Two machines, from `a` and `b` on, to which the same was written. The places
    that were opened belong to `paths` and hold the same; the others are as they
    were. -/
structure Lockstep (a b : Machine) (paths : List String) (opened : List Place) (m m' : Machine) :
    Prop where
  tree : Files.SameTree a.files m.files
  tree' : Files.SameTree a.files m'.files
  named : ∀ p ∈ opened, ∃ path ∈ paths, a.files.place? path = some p
  agree : ∀ p ∈ opened, m'.files.entries.lookup p = m.files.entries.lookup p
  rest : ∀ p ∉ opened, m.files.entries.lookup p = a.files.entries.lookup p
  rest' : ∀ p ∉ opened, m'.files.entries.lookup p = b.files.entries.lookup p
  stdin : m.stdin = a.stdin
  stdout : ∃ text, m.stdout = a.stdout ++ text ∧ m'.stdout = b.stdout ++ text
  stderr : ∃ text, m.stderr = a.stderr ++ text ∧ m'.stderr = b.stderr ++ text

/-- Before anything is written, the trees have to be the same. -/
theorem Lockstep.start (a b : Machine) (paths : List String)
    (h : Files.SameTree a.files b.files) : Lockstep a b paths [] a b where
  tree := .refl a.files
  tree' := h
  named := fun _ hp => absurd hp List.not_mem_nil
  agree := fun _ hp => absurd hp List.not_mem_nil
  rest := fun _ _ => rfl
  rest' := fun _ _ => rfl
  stdin := rfl
  stdout := ⟨"", by simp, by simp⟩
  stderr := ⟨"", by simp, by simp⟩

/-- An output that goes to one of `paths`. If it was opened, so was its place. -/
def Output.Follows (fs : Files) (paths : List String) (opened : List Place) : Output → Prop
  | .file path isOpen =>
    path ∈ paths ∧ (isOpen = true → ∀ p, fs.place? path = some p → p ∈ opened)
  | _ => True

variable {a b : Machine} {paths : List String} {opened opened' : List Place} {m m' : Machine}

/-- More places may be open. -/
theorem Output.Follows.mono {o : Output} (h : o.Follows a.files paths opened)
    (hsub : opened ⊆ opened') : o.Follows a.files paths opened' := by
  cases o with
  | file path isOpen => exact ⟨h.1, fun hopen p hp => hsub (h.2 hopen p hp)⟩
  | _ => trivial

/-- The same contents are set at the place of an output. -/
theorem Lockstep.set (h : Lockstep a b paths opened m m') (path : String) (p : Place)
    (c : Contents) (hpath : path ∈ paths) (hp : a.files.place? path = some p) :
    Lockstep a b paths (p :: opened) { m with files := m.files.set p c }
      { m' with files := m'.files.set p c } := by
  -- The path leads to the same place on both machines.
  have hm : m.files.place? path = some p := (h.tree.place?_eq path).trans hp
  have hm' : m'.files.place? path = some p := (h.tree'.place?_eq path).trans hp
  refine ⟨h.tree.trans (Files.sameTree_set (Files.reached_of_place? hm) c),
    h.tree'.trans (Files.sameTree_set (Files.reached_of_place? hm') c), ?_, ?_, ?_, ?_,
    h.stdin, h.stdout, h.stderr⟩
  · rw [List.forall_mem_cons]
    exact ⟨⟨path, hpath, hp⟩, h.named⟩
  · intro q hq
    rw [Files.lookup_set, Files.lookup_set]
    split
    · rfl
    · rename_i hne
      exact h.agree q ((List.mem_cons.mp hq).resolve_left hne)
  · intro q hq
    rw [List.mem_cons, not_or] at hq
    rw [Files.lookup_set, if_neg hq.1]
    exact h.rest q hq.2
  · intro q hq
    rw [List.mem_cons, not_or] at hq
    rw [Files.lookup_set, if_neg hq.1]
    exact h.rest' q hq.2

/-- Writing to an output is repeated. A place is emptied when it is opened, and
    what is added to later is the same. -/
theorem Lockstep.write (h : Lockstep a b paths opened m m') (o o' : Output) (s : String)
    (n : Machine) (ho : o.Follows a.files paths opened) (hwrite : o.write s m = (o', .ok n)) :
    ∃ opened' n', opened ⊆ opened' ∧ o.write s m' = (o', .ok n') ∧
      Lockstep a b paths opened' n n' ∧ o'.Follows a.files paths opened' := by
  cases o with
  | null =>
      cases hwrite
      exact ⟨opened, m', List.Subset.refl _, rfl, h, trivial⟩
  | stdout =>
      cases hwrite
      rcases h.stdout with ⟨text, htext, htext'⟩
      refine ⟨opened, _, List.Subset.refl _, rfl, { h with stdout := ⟨text ++ s, ?_, ?_⟩ }, trivial⟩
      · rw [htext, String.append_assoc]
      · rw [htext', String.append_assoc]
  | stderr =>
      cases hwrite
      rcases h.stderr with ⟨text, htext, htext'⟩
      refine ⟨opened, _, List.Subset.refl _, rfl, { h with stderr := ⟨text ++ s, ?_, ?_⟩ }, trivial⟩
      · rw [htext, String.append_assoc]
      · rw [htext', String.append_assoc]
  | file path isOpen =>
      rcases Prod.mk.inj hwrite with ⟨rfl, hfiles⟩
      -- Both kinds of writing set contents at the place of the path.
      have hset : ∃ p c, a.files.place? path = some p ∧ n = { m with files := m.files.set p c } ∧
          Output.write (.file path isOpen) s m'
            = (.file path true, .ok { m' with files := m'.files.set p c }) := by
        cases isOpen with
        | false =>
            cases hwritten : m.files.write path s with
            | error e => simp [hwritten, Except.map] at hfiles
            | ok fs =>
                simp only [hwritten, Except.map, Bool.false_eq_true, if_false,
                  Except.ok.injEq] at hfiles
                rcases (Files.write_ok_iff _ _ _ _).mp hwritten with ⟨p, hp, rfl⟩
                have hp₀ := (h.tree.place?_eq path).symm.trans hp
                refine ⟨p, .text s, hp₀, hfiles.symm, ?_⟩
                have hwritten' := (Files.write_ok_iff m'.files _ path s).mpr
                  ⟨p, (h.tree'.place?_eq path).trans hp₀, rfl⟩
                simp [Output.write, hwritten', Except.map]
        | true =>
            cases hwritten : m.files.extend path s with
            | error e => simp [hwritten, Except.map] at hfiles
            | ok fs =>
                simp only [hwritten, Except.map, if_true, Except.ok.injEq] at hfiles
                rcases (Files.extend_ok_iff _ _ _ _).mp hwritten with ⟨p, c, hp, hlook, rfl⟩
                have hp₀ := (h.tree.place?_eq path).symm.trans hp
                refine ⟨p, c.append s, hp₀, hfiles.symm, ?_⟩
                -- The place was opened before, so both files hold the same.
                have hlook' := (h.agree p (ho.2 rfl p hp₀)).trans hlook
                have hwritten' := (Files.extend_ok_iff m'.files _ path s).mpr
                  ⟨p, c, (h.tree'.place?_eq path).trans hp₀, hlook', rfl⟩
                simp [Output.write, hwritten', Except.map]
      rcases hset with ⟨p, c, hp, rfl, hwrite'⟩
      refine ⟨p :: opened, _, List.subset_cons_self p opened, hwrite', h.set path p c ho.1 hp,
        ho.1, fun _ q hq => ?_⟩
      rw [hp, Option.some.injEq] at hq
      rw [hq]
      exact List.mem_cons_self

/-- A step that two jobs in lockstep take together, and what holds of its result
    and the places that are open then. -/
def Job.InStep (a b : Machine) (paths : List String) (opened : List Place) {α : Type}
    (step : Job.Step α) (post : α → List Place → Prop) : Prop :=
  ∀ j j' r k, Lockstep a b paths opened j.machine j'.machine → step j = .ok r k →
    ∃ opened' k', opened ⊆ opened' ∧ step j' = .ok r k' ∧
      Lockstep a b paths opened' k.machine k'.machine ∧ post r opened'

variable {α β : Type}

/-- Nothing is written. -/
theorem Job.inStep_pure (r : α) (post : α → List Place → Prop) (h : post r opened) :
    Job.InStep a b paths opened (pure r) post := by
  intro j j' r' k hstep hrun
  rcases pure_ok_iff.mp hrun with ⟨rfl, rfl⟩
  exact ⟨opened, j', List.Subset.refl _, rfl, hstep, h⟩

/-- A result is the same in both. -/
theorem Job.inStep_lift (x : Except Error α) :
    Job.InStep a b paths opened (Job.lift x) fun _ _ => True := by
  intro j j' r k hstep hrun
  rcases Job.lift_ok_iff.mp hrun with ⟨rfl, rfl⟩
  exact ⟨opened, j', List.Subset.refl _, rfl, hstep, trivial⟩

/-- Steps that are taken together, one after another. -/
theorem Job.inStep_bind (step : Job.Step α) (k : α → Job.Step β) (mid : α → List Place → Prop)
    (post : β → List Place → Prop) (hstep : Job.InStep a b paths opened step mid)
    (hk : ∀ r opened', opened ⊆ opened' → mid r opened' →
      Job.InStep a b paths opened' (k r) post) :
    Job.InStep a b paths opened (step >>= k) post := by
  intro j j' r i hlock hrun
  rcases bind_ok_iff.mp hrun with ⟨x, j₁, hfirst, hrest⟩
  rcases hstep j j' x j₁ hlock hfirst with ⟨opened₁, j₁', hsub₁, hfirst', hlock₁, hmid⟩
  rcases hk x opened₁ hsub₁ hmid j₁ j₁' r i hlock₁ hrest with
    ⟨opened₂, i', hsub₂, hrest', hlock₂, hpost⟩
  exact ⟨opened₂, i', List.Subset.trans hsub₁ hsub₂,
    bind_ok_iff.mpr ⟨x, j₁', hfirst', hrest'⟩, hlock₂, hpost⟩

/-- Writing is repeated, and marks its place as open. -/
theorem Job.inStep_write (o : Output) (s : String) (ho : o.Follows a.files paths opened) :
    Job.InStep a b paths opened (Job.write o s) fun o' opened' =>
      o'.Follows a.files paths opened' := by
  intro j j' o' k hlock hwrite
  rcases bind_ok_iff.mp hwrite with ⟨_, _, hget, hrest⟩
  rcases get_ok_iff.mp hget with ⟨rfl, rfl⟩
  cases hresult : o.write s j.machine with
  | mk out result =>
      rw [hresult] at hrest
      rcases bind_ok_iff.mp hrest with ⟨n, _, hlift, hrest⟩
      rcases Job.lift_ok_iff.mp hlift with ⟨rfl, rfl⟩
      rcases bind_ok_iff.mp hrest with ⟨_, _, hset, hpure⟩
      rcases pure_ok_iff.mp hpure with ⟨rfl, rfl⟩
      have hk := set_ok_iff.mp hset
      subst hk
      rcases hlock.write o out s n ho hresult with ⟨opened', n', hsub, hwrite', hstep, hfollows⟩
      refine ⟨opened', { j' with machine := n' }, hsub, ?_, hstep, hfollows⟩
      refine bind_ok_iff.mpr ⟨j', j', rfl, ?_⟩
      rw [hwrite']
      rfl

/-- Outputs of a run that go to `paths`. -/
structure Backend.Follows (fs : Files) (paths : List String) (backend : Backend)
    (opened : List Place) : Prop where
  netlist : backend.netlist.Follows fs paths opened
  lib : backend.lib.Follows fs paths opened
  conf : backend.conf.Follows fs paths opened

/-- So is writing to the library. -/
theorem Backend.inStep_writeLibrary (backend : Backend) (s : String)
    (h : backend.Follows a.files paths opened) :
    Job.InStep a b paths opened (backend.writeLibrary s) fun backend' opened' =>
      backend'.Follows a.files paths opened' := by
  refine Job.inStep_bind _ _ _ _ (Job.inStep_write _ _ h.lib) fun lib opened' hsub hlib => ?_
  exact Job.inStep_pure _ _ ⟨h.netlist.mono hsub, hlib, h.conf.mono hsub⟩

/-- So is writing a process. -/
theorem Backend.inStep_emit (backend : Backend) (p : LoweredProcess)
    (h : backend.Follows a.files paths opened) :
    Job.InStep a b paths opened (backend.emit p) fun backend' opened' =>
      backend'.Follows a.files paths opened' := by
  refine Job.inStep_bind _ _ _ _ (Job.inStep_write _ _ h.netlist)
    fun netlist opened₁ hsub hnet => ?_
  have hbackend : ({ backend with netlist } : Backend).Follows a.files paths opened₁ :=
    ⟨hnet, h.lib.mono hsub, h.conf.mono hsub⟩
  -- The configuration is written last, whether or not there were templates.
  have hconf : ∀ (backend₂ : Backend) opened₂, backend₂.Follows a.files paths opened₂ →
      Job.InStep a b paths opened₂ (do
        let conf ← Job.write backend₂.conf (String.join (p.costBlocks.map CostBlock.render))
        return { backend₂ with conf }) fun backend' opened' =>
          backend'.Follows a.files paths opened' := by
    intro backend₂ opened₂ h₂
    refine Job.inStep_bind _ _ _ _ (Job.inStep_write _ _ h₂.conf) fun conf opened₃ hsub₃ hconf => ?_
    exact Job.inStep_pure _ _ ⟨h₂.netlist.mono hsub₃, h₂.lib.mono hsub₃, hconf⟩
  dsimp only
  split
  · exact hconf _ _ hbackend
  · exact Job.inStep_bind _ _ _ _ (Backend.inStep_writeLibrary _ _ hbackend)
      fun backend₂ opened₂ _ h₂ => hconf backend₂ opened₂ h₂

/-- So is writing all of them. -/
theorem Backend.inStep_emitAll (backend : Backend) (ps : List LoweredProcess)
    (h : backend.Follows a.files paths opened) :
    Job.InStep a b paths opened (backend.emitAll ps) fun backend' opened' =>
      backend'.Follows a.files paths opened' := by
  induction ps generalizing backend opened with
  | nil => exact Job.inStep_pure _ _ h
  | cons p ps ih =>
      exact Job.inStep_bind _ _ _ _ (Backend.inStep_emit backend p h)
        fun backend' _ _ hbackend' => ih backend' hbackend'

/-- So is writing the statistics. -/
theorem inStep_writeStatistics (out : Output) (stats : Statistics)
    (h : out.Follows a.files paths opened) :
    Job.InStep a b paths opened (writeStatistics out stats) fun _ _ => True := by
  refine Job.inStep_bind _ _ _ _ (Job.inStep_write _ _ h) fun out₁ opened₁ _ hout₁ => ?_
  refine Job.inStep_bind _ _ _ _ (Job.inStep_lift _) fun report opened₂ hsub₂ _ => ?_
  refine Job.inStep_bind _ _ _ _ (Job.inStep_write _ _ (hout₁.mono hsub₂)) fun _ _ _ _ => ?_
  exact Job.inStep_pure _ _ trivial

/-- The outputs that options name. -/
def Options.outputs (o : Options) : List Output :=
  [o.output, o.lib, o.conf] ++ o.stats.toList

/-- Nothing was written to the outputs, and none of them is a file that is
    read. -/
structure Options.Apart (o : Options) (fs : Files) : Prop where
  unopened : ∀ path, Output.file path true ∉ o.outputs
  apart : ∀ written ∈ o.outputs.filterMap Output.path?, ∀ read ∈ o.pathsRead, ∀ p,
    fs.place? written = some p → fs.place? read ≠ some p

/-- Writing lowered processes is repeated from files with the same directories. -/
theorem writeOutputs_lockstep (o : Options) (lowered : List LoweredProcess) (stats : Statistics)
    (j j' k : Job) (hunopened : ∀ path, Output.file path true ∉ o.outputs)
    (htree : Files.SameTree j.machine.files j'.machine.files)
    (h : writeOutputs o lowered stats j = .ok () k) :
    ∃ opened k', writeOutputs o lowered stats j' = .ok () k' ∧
      Lockstep j.machine j'.machine (o.outputs.filterMap Output.path?) opened
        k.machine k'.machine := by
  -- No output is open at the start.
  have hfollows : ∀ out ∈ o.outputs, ∀ opened,
      out.Follows j.machine.files (o.outputs.filterMap Output.path?) opened := by
    intro out hout opened
    cases out with
    | file path isOpen =>
        refine ⟨List.mem_filterMap.mpr ⟨_, hout, rfl⟩, fun hopen => ?_⟩
        rw [hopen] at hout
        exact absurd hout (hunopened path)
    | _ => trivial
  have hwriting : Job.InStep j.machine j'.machine (o.outputs.filterMap Output.path?) []
      (writeOutputs o lowered stats) fun _ _ => True := by
    have hbackend : (Backend.start o.output o.lib o.conf).Follows j.machine.files
        (o.outputs.filterMap Output.path?) [] :=
      ⟨hfollows o.output (by simp [Options.outputs]) _,
        hfollows o.lib (by simp [Options.outputs]) _,
        hfollows o.conf (by simp [Options.outputs]) _⟩
    refine Job.inStep_bind _ _ _ _ (Backend.inStep_emitAll _ lowered hbackend)
      fun backend₁ opened₁ _ hbackend₁ => ?_
    refine Job.inStep_bind _ _ _ _ (Backend.inStep_writeLibrary _ _ hbackend₁) fun _ _ _ _ => ?_
    -- The statistics are written if they are asked for.
    cases hstats : o.stats with
    | none => exact Job.inStep_pure _ _ trivial
    | some out =>
        exact inStep_writeStatistics out stats
          (hfollows out (by simp [Options.outputs, hstats]) _)
  rcases hwriting j j' () k (Lockstep.start _ _ _ htree) h with ⟨opened, k', _, hrun, hlock, _⟩
  exact ⟨opened, k', hrun, hlock⟩

end Writing

section Running

/-- A run succeeds exactly if its compilation does. -/
theorem runCompiler_ok_iff (programs : Programs) (o : Options) (m : Machine) (job : Job) :
    runCompiler programs o m = (.ok (), job) ↔ compile programs o ⟨m, [], []⟩ = .ok () job := by
  unfold runCompiler
  cases compile programs o ⟨m, [], []⟩ with
  | ok u k => simp
  | error e k => simp

/-- A place that is not one of the outputs is as it was. -/
theorem Lockstep.spares {a b m m' : Machine} {paths : List String} {opened : List Place}
    (h : Lockstep a b paths opened m m') (path : String)
    (hpath : ∀ written ∈ paths, ∀ p, a.files.place? written = some p →
      a.files.place? path ≠ some p) : a.files.Spares m.files path := by
  refine ⟨h.tree, fun p hp => h.rest p fun hopened => ?_⟩
  rcases h.named p hopened with ⟨written, hwritten, hplace⟩
  exact hpath written hwritten p hplace hp

/-- If a run with an estimator and without a custom file succeeds, so does a run
    without an estimator on what it leaves: the program is lowered to the same
    processes with the same statistics, every file holds the same afterwards, the
    custom file and the outputs included, and the same is printed. -/
theorem second_run_reproduces_first (programs programs' : Programs) (o : Options)
    (custom command : String) (m : Machine) (job : Job)
    (hcustom : o.customMetrics = some custom) (hestimator : o.estimator = some command)
    (habsent : m.files.contains custom = false) (hapart : o.Apart m.files)
    (hrun : runCompiler programs o m = (.ok (), job)) :
    ∃ lowered session session' j j' job',
      lowerInput programs o ⟨m, [], []⟩ = .ok (lowered, session) j ∧
      lowerInput programs' { o with estimator := none } ⟨job.machine, [], []⟩
        = .ok (lowered, session') j' ∧
      session'.stats = session.stats ∧
      runCompiler programs' { o with estimator := none } job.machine = (.ok (), job') ∧
      (∀ path, job'.machine.files.read path = job.machine.files.read path) ∧
      ∃ out err,
        job.machine.stdout = m.stdout ++ out ∧ job'.machine.stdout = job.machine.stdout ++ out ∧
        job.machine.stderr = m.stderr ++ err ∧ job'.machine.stderr = job.machine.stderr ++ err := by
  rw [runCompiler_ok_iff, compile_eq] at hrun
  rcases bind_ok_iff.mp hrun with ⟨⟨lowered, session⟩, j, hlower, hwrite⟩
  have hrepeat := lowerInput_again programs programs' o custom command m lowered session j hcustom
    hestimator habsent hlower
  rcases hrepeat.again with ⟨rs, text, hholds, hout, herr, hagain⟩
  -- In lockstep with itself, the first run shows which files it leaves alone.
  rcases writeOutputs_lockstep o lowered session.stats j j job hapart.unopened (.refl _) hwrite with
    ⟨_, _, _, hself⟩
  -- Writing leaves alone what the second run is going to read.
  have hspared : ∀ path ∈ o.pathsRead, j.machine.files.Spares job.machine.files path := by
    intro path hpath
    refine hself.spares path fun written hwritten p hp => ?_
    rw [hrepeat.tree.place?_eq] at hp ⊢
    exact hapart.apart written hwritten path hpath p hp
  have hcustomRead : custom ∈ o.pathsRead := by
    unfold Options.pathsRead
    rw [hcustom]
    exact List.mem_append_right _ (List.mem_singleton_self custom)
  rcases hagain job.machine (hself.stdin.trans hrepeat.stdin)
    (fun path hpath c hread => ((hrepeat.spares path c hread).trans (hspared path hpath)).read_ok c
      hread) ((hspared custom hcustomRead).holdsRecords hholds) with
    ⟨session', j', hlower', hstats, hfiles, hout', herr'⟩
  rcases writeOutputs_lockstep o lowered session.stats j j' job hapart.unopened
    (by rw [hfiles]; exact hself.tree) hwrite with ⟨opened, job', hwrite', hlock⟩
  -- What was opened holds the same, and the rest was not touched a second time.
  have halike : job.machine.files.Alike job'.machine.files := by
    refine ⟨hlock.tree.symm.trans hlock.tree', fun p => ?_⟩
    by_cases hp : p ∈ opened
    · exact hlock.agree p hp
    · rw [hlock.rest' p hp, hfiles]
  refine ⟨lowered, session, session', j, j', job', hlower, hlower', hstats, ?_, halike.read_eq, ?_⟩
  · rw [runCompiler_ok_iff, compile_eq]
    refine bind_ok_iff.mpr ⟨(lowered, session'), j', hlower', ?_⟩
    rw [hstats]
    exact hwrite'
  · rcases hlock.stdout with ⟨out, hstdout, hstdout'⟩
    rcases hlock.stderr with ⟨err, hstderr, hstderr'⟩
    refine ⟨out, text ++ err, ?_, ?_, ?_, ?_⟩
    · rw [hstdout, hout]
    · rw [hstdout', hout']
    · rw [hstderr, herr, String.append_assoc]
    · rw [hstderr', herr', String.append_assoc]

/-- An adder that is estimated once: the second run finds no program to ask and
    writes the same files from the record of the first one. -/
theorem estimated_adder_is_priced_again :
    let o : Options := { Options.default with
      output := .file "out.act" false
      lib := .file "lib.act" false
      conf := .file "out.conf" false
      stats := some (.file "out.stats" false)
      metrics := ["std.metrics"]
      customMetrics := some "custom.metrics"
      estimator := some "estimate" }
    let m : Machine := ⟨.ofList [("std.metrics", .text "latch1 1 2 10 3\ntwoToOne 0 0 20 0\n")],
      .text "defproc add(chan?(int<8>) a, b; chan!(int<8>) o) \x7b dataflow \x7b a + b -> o; \x7d \x7d",
      "", ""⟩
    let answering : Programs := fun _ _ _ => .finished 0 "100e-12 1e-3 2e-9 1000e-12" ""
    let silent : Programs := fun _ _ _ => .missing
    ∃ job job', runCompiler answering o m = (.ok (), job) ∧
      job.machine.files.read "custom.metrics"
        = .ok (.text "func_0add1_8_8_8_8_8_ 21 1098 1030 153\n") ∧
      runCompiler silent { o with estimator := none } job.machine = (.ok (), job') ∧
      ∀ path, job'.machine.files.read path = job.machine.files.read path := by
  intro o m answering silent
  have hfirst : (runCompiler answering o m).1.toBool = true ∧
      (runCompiler answering o m).2.machine.files.read "custom.metrics"
        = .ok (.text "func_0add1_8_8_8_8_8_ 21 1098 1030 153\n") := by decide +kernel
  have hplaces : ∀ written ∈ o.outputs.filterMap Output.path?, ∀ read ∈ o.pathsRead,
      m.files.place? written ≠ m.files.place? read := by decide +kernel
  have hapart : o.Apart m.files := by
    refine ⟨fun path => by simp [o, Options.outputs], fun written hw read hr p hp hq => ?_⟩
    exact hplaces written hw read hr (hp.trans hq.symm)
  have hrun : runCompiler answering o m = (.ok (), (runCompiler answering o m).2) := by
    cases hresult : runCompiler answering o m with
    | mk result job =>
        rw [hresult] at hfirst
        cases result with
        | ok u => rfl
        | error e => cases hfirst.1
  rcases second_run_reproduces_first answering silent o "custom.metrics" "estimate" m _ rfl rfl
    (by decide +kernel) hapart hrun with ⟨_, _, _, _, _, job', _, _, _, hagain, hfiles, _⟩
  exact ⟨_, job', hrun, hfirst.2, hagain, hfiles⟩

end Running

end DataflowCircuit
