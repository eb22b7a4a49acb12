import DataflowCircuit.Proofs.Cost.Estimates

/-!
# Estimating Once

A session can outlive a failure: the process that failed has no output, and the
next one is lowered in the same session. `attemptAll` is such a use of a session
by any processes in any order. Whatever they are and however the estimator
answers, no unit is estimated twice, because what was answered has an entry from
then on, in the table that all of them share.

The exception is an answer that gives no cost because a sum leaves the range of
costs. It leaves no entry, so nothing would keep the next process from asking
again. It also ends the run, as it ends the program, so there is no next process.

## Main definitions

* `attemptAll`: Lower processes one after another, whether they fail or not.

## Theorems

* `attemptAll_accounts`: Such a run has an account.
* `units_are_estimated_once`: What the account says about requests, entries and
  records.
-/

namespace DataflowCircuit

/-- Lower processes one after another, and go on with the next one where one
    fails. A sum that leaves the range of costs ends the run. -/
def attemptAll : Program → Session.Step Unit
  | [] => return ()
  | p :: ps => fun s =>
    match lowerProcess p s with
    | .ok _ s => attemptAll ps s
    | .error .costOverflow s => .error .costOverflow s
    | .error _ s => attemptAll ps s

/-- The first process ends the run, or the rest goes on from what it left. -/
theorem attemptAll_cons (p : Process) (ps : Program) (s : Session) :
    (∃ s', lowerProcess p s = .error .costOverflow s' ∧
      attemptAll (p :: ps) s = .error .costOverflow s') ∨
    (∀ s', lowerProcess p s ≠ .error .costOverflow s') ∧
      attemptAll (p :: ps) s = attemptAll ps (endState (lowerProcess p s)) := by
  simp only [attemptAll]
  cases lowerProcess p s with
  | ok out s' => exact Or.inr ⟨fun _ h => (by cases h), rfl⟩
  | error e s' =>
      by_cases he : e = .costOverflow
      · rw [he]
        exact Or.inl ⟨s', rfl, rfl⟩
      · refine Or.inr ⟨fun _ h => ?_, ?_⟩
        · cases h
          exact he rfl
        · cases e <;> first | rfl | exact absurd rfl he

/-- A run of attempts has an account. Something is lost only at its end. -/
theorem attemptAll_accounts (ps : Program) (s : Session) : ∃ s' es lost,
    Accounts s s' es lost ∧ (attemptAll ps s = .ok () s' ∧ lost = [] ∨
      attemptAll ps s = .error .costOverflow s' ∧ lost.length ≤ 1) := by
  induction ps generalizing s with
  | nil => exact ⟨s, [], [], .of_pricing_eq rfl, Or.inl ⟨rfl, rfl⟩⟩
  | cons p ps ih =>
      have hended := accounted_lowerProcess p s
      rcases attemptAll_cons p ps s with ⟨s', hp, hrun⟩ | ⟨hne, hrun⟩
      · rw [hp] at hended
        rcases Settled.accounts hended with ⟨es, lost, haccounts, hlost, _⟩
        exact ⟨s', es, lost, haccounts, Or.inr ⟨hrun, hlost⟩⟩
      · -- Nothing was lost in the first process, so the accounts can be joined.
        have hfirst : ∃ es, Accounts s (endState (lowerProcess p s)) es [] := by
          cases hp : lowerProcess p s with
          | ok out t =>
              rw [hp] at hended
              rcases hended with ⟨es, haccounts, _⟩
              exact ⟨es, haccounts⟩
          | error e t =>
              rw [hp] at hended
              rcases Settled.accounts hended with ⟨es, lost, haccounts, _, hnone⟩
              have he : e ≠ .costOverflow := fun he => hne t (by rw [hp, he])
              rw [hnone he] at haccounts
              exact ⟨es, haccounts⟩
        rcases hfirst with ⟨es, haccounts⟩
        rcases ih (endState (lowerProcess p s)) with ⟨s', es', lost, haccounts', hrest⟩
        rw [hrun]
        exact ⟨s', es ++ es', lost, haccounts.append haccounts', hrest⟩

/-- No unit is estimated twice, whatever is lowered in a session and however the
    estimator answers. -/
theorem units_are_estimated_once (ps : Program) (s : Session) (est : Estimator)
    (hest : s.estimator = some est) : ∃ (s' : Session) (es : List Estimate) (lost : List Reply)
      (asked : List EstimateRequest),
      (attemptAll ps s = .ok () s' ∧ lost = [] ∨
        attemptAll ps s = .error .costOverflow s' ∧ lost.length ≤ 1) ∧
      s'.requests = s.requests ++ asked ∧
      est.answers s.requests asked = (es.map Estimate.toReply ++ lost).map Reply.answer ∧
      ((es.map Estimate.toReply ++ lost).map fun r => normalizeKey r.unit.key).Nodup ∧
      (∀ r ∈ es.map Estimate.toReply ++ lost,
        s.metrics.lookup r.unit.key = none ∧ r.unit.isForward = false) ∧
      (∀ key cost, s.metrics.lookup key = some cost → s'.metrics.lookup key = some cost) ∧
      (∀ e ∈ es, e.MadeWith s'.metrics ∧ s'.metrics.lookup e.unit.key = some e.cost) ∧
      ∀ path, s.custom = some path → (∀ text, ∃ files, s.files.append path text = .ok files) →
        s.files.appendRecords path (es.map Estimate.record) = .ok s'.files := by
  rcases attemptAll_accounts ps s with ⟨s', es, lost, haccounts, hrun⟩
  rcases haccounts.asked with ⟨asked, hasked, hanswers⟩
  refine ⟨s', es, lost, asked, hrun, hasked, ?_, haccounts.distinct, haccounts.fresh,
    haccounts.lookup_kept, fun e he => ⟨haccounts.made e he, haccounts.lookup_estimate e he⟩,
    fun path hcustom happend => ?_⟩
  · simp only [Session.answers, hest] at hanswers
    exact hanswers
  -- The path is a file's, since a text can be appended there.
  · rcases happend "" with ⟨files, hfirst⟩
    rcases (Files.append_ok_iff _ _ _ _).mp hfirst with ⟨p, hp, _⟩
    rw [haccounts.files, hcustom]
    exact Files.appendRecords_keep _ p hp

/-- Two processes have an adder, and the first one fails after it was estimated,
    because nothing is known about the sink behind it. The second process finds
    the entry: the estimator was asked once, and there is one record. -/
theorem failed_process_leaves_its_estimate :
    let p : Process := ⟨"p", ⟨[⟨"a", .int 8, .port .input, 0⟩, ⟨"b", .int 8, .port .input, 1⟩,
        ⟨"x", .int 8, .internal, 2⟩]⟩,
      [.func ⟨.binary .add (.var 0) (.var 1), none, some 2⟩, .sink 2]⟩
    let q : Process := ⟨"q", ⟨[⟨"c", .int 8, .port .input, 0⟩, ⟨"d", .int 8, .port .input, 1⟩,
        ⟨"y", .int 8, .port .output, 2⟩]⟩,
      [.func ⟨.binary .add (.var 0) (.var 1), none, some 2⟩]⟩
    let reply := (RunResult.finished 0 "100e-12 1e-3 2e-9 1000e-12" "").reply "estimate"
    let s : Session := { Session.start false .empty with
      metrics := [("latch1", ⟨1, 2, 10, 3⟩), ("twoToOne", ⟨0, 0, 20, 0⟩)]
      custom := some "custom.metrics"
      estimator := some ⟨fun _ _ => reply⟩ }
    (∃ t, lowerProcess p s = .error (.missingMetrics "sink_8_") t) ∧
      ∃ (s' : Session) (e : Estimate), attemptAll [p, q] s = .ok () s' ∧
        s'.requests = [e.unit.graph.request e.unit] ∧ reply = .ok e.raw ∧
        s'.metrics.lookup e.unit.key = some e.cost ∧
        s.files.appendRecords "custom.metrics" [e.record] = .ok s'.files := by
  intro p q reply s
  have hfirst : (match lowerProcess p s with
      | .ok _ _ => none
      | .error e _ => some e) = some (.missingMetrics "sink_8_") := by decide +kernel
  -- Both attempts together make one request.
  have hrun : (match attemptAll [p, q] s with
      | .ok _ t => t.requests.length
      | .error _ _ => 0) = 1 := by decide +kernel
  have hreply : reply.toBool = true := by decide +kernel
  refine ⟨?_, ?_⟩
  · cases hp : lowerProcess p s with
    | ok out t =>
        rw [hp] at hfirst
        cases hfirst
    | error e t =>
        rw [hp] at hfirst
        cases hfirst
        exact ⟨t, rfl⟩
  · rcases units_are_estimated_once [p, q] s ⟨fun _ _ => reply⟩ rfl with
      ⟨s', es, lost, asked, hend, hasked, hanswers, _, _, _, hmade, hfile⟩
    rcases hend with ⟨hend, rfl⟩ | ⟨hend, _⟩
    · -- One request was made and answered, so there is one estimate.
      rw [hend] at hrun
      change s'.requests = asked at hasked
      have hone : asked.length = 1 := by
        rw [← hasked]
        exact hrun
      rcases List.length_eq_one_iff.mp hone with ⟨r, rfl⟩
      cases hraw : reply with
      | error fault =>
          rw [hraw] at hreply
          cases hreply
      | ok raw =>
          simp only [Estimator.answers, hraw, List.append_nil, List.map_map] at hanswers
          rcases List.map_eq_singleton_iff.mp hanswers.symm with ⟨e, rfl, he⟩
          rcases Prod.mk.inj he with ⟨hr, hraw'⟩
          refine ⟨s', e, hend, hasked.trans (congrArg (fun r => [r]) hr.symm), ?_,
            (hmade e List.mem_cons_self).2, hfile "custom.metrics" rfl fun text => ?_⟩
          · exact congrArg Except.ok hraw'.symm
          · exact ⟨_, (Files.append_ok_iff _ _ _ _).mpr
              ⟨["custom.metrics"], by decide +kernel, rfl⟩⟩
    · rw [hend] at hrun
      cases hrun

end DataflowCircuit
