import DataflowCircuit.Proofs.Netlist.Component

/-!
# Answers About Costs

Lowering asks the session for the cost of everything it writes, and the session
learns while it is asked: a unit that computes something and has no cost is
estimated, and the estimate is entered into the table. A question that is put
twice could therefore be answered differently. It is not, and this file says
why.

`Learns` is what asking does to a session. No entry is ever changed, and an
entry that is new stands under the key of a unit that computes something. The
absence of a cost is remembered in a weaker sense: it is answered again unless
there is an estimator and the key computes, and then it was never answered with
an absence. Keys are compared as the table has them, with brackets and commas
turned into marks, so what has to be shown is that a normalized key still tells
a unit that computes from a unit that forwards, and a unit from everything else.

`Asked` is a run of questions. After a run, the table gives every answer again,
so two questions about one key have the same answer whenever they were put.

## Main definitions

* `Session.pricing`: The part of a session that answers depend on.
* `UnitPriced`: How the cost of a unit is found.
* `Asked`: A run of questions and answers.
* `Component.known`: The cost of a component according to a table.
* `ComputesKey`: The keys under which something can be learned.
* `Learns`: What asking does to a session.

## Theorems

* `synthesize_run`: Estimating a unit, step by step.
* `synthesize_ok`, `unitCost_ok`: What it takes to estimate a unit, and the ways
  to find its cost.
* `Component.ask_frame`: Asking changes nothing but what is known.
* `Component.learns_ask`, `Component.known_stable`: One question.
* `Asked.learns`: A run of questions.
* `Component.known_congr`, `Component.portCosts_congr`: A key determines the
  answer and the port costs.
-/

namespace DataflowCircuit

/-- What the answers of a session depend on and what they change. -/
structure Pricing where
  metrics : MetricsTable
  custom : Option String
  estimator : Option Estimator
  requests : List EstimateRequest
  files : Files

/-- The part of a session that answers depend on. -/
def Session.pricing (s : Session) : Pricing :=
  ⟨s.metrics, s.custom, s.estimator, s.requests, s.files⟩

section Questions

/-- A required cost is in the table. -/
theorem requireCost_ok (key : String) (cost : Cost) (s s' : Session)
    (h : Session.requireCost key s = .ok cost s') : s.metrics.lookup key = some cost ∧ s' = s := by
  rcases bind_ok_iff.mp h with ⟨s₀, s₁, hget, h⟩
  rcases get_ok_iff.mp hget with ⟨rfl, rfl⟩
  unfold MetricsTable.require at h
  cases hlook : s.metrics.lookup key with
  | none =>
      rw [hlook] at h
      exact (throw_ok_iff.mp h).elim
  | some c =>
      rw [hlook] at h
      rcases pure_ok_iff.mp h with ⟨rfl, rfl⟩
      exact ⟨rfl, rfl⟩

/-- A cost that is in the table is found. -/
theorem requireCost_eq (key : String) (cost : Cost) (s : Session)
    (h : s.metrics.lookup key = some cost) : Session.requireCost key s = .ok cost s := by
  refine bind_ok_iff.mpr ⟨s, s, rfl, ?_⟩
  unfold MetricsTable.require
  rw [h]
  rfl

/-- The cost of a source is that of its value, or that of its width. -/
theorem sourceCost_ok (value width : Nat) (cost : Cost) (s s' : Session)
    (h : Lowering.sourceCost value width s = .ok cost s') :
    (s.metrics.lookup (Lowering.sourceKey value width)).or
        (s.metrics.lookup (Lowering.genericSourceKey width)) = some cost ∧ s' = s := by
  rcases bind_ok_iff.mp h with ⟨s₀, s₁, hget, h⟩
  rcases get_ok_iff.mp hget with ⟨rfl, rfl⟩
  cases hlook : s.metrics.lookup (Lowering.sourceKey value width) with
  | some c =>
      rw [hlook] at h
      rcases pure_ok_iff.mp h with ⟨rfl, rfl⟩
      exact ⟨rfl, rfl⟩
  | none =>
      rw [hlook] at h
      exact requireCost_ok _ cost s s' h

/-- The cost of a source is that of its value or, failing that, of its width. -/
theorem sourceCost_eq (value width : Nat) (cost : Cost) (s : Session)
    (h : (s.metrics.lookup (Lowering.sourceKey value width)).or
      (s.metrics.lookup (Lowering.genericSourceKey width)) = some cost) :
    Lowering.sourceCost value width s = .ok cost s := by
  refine bind_ok_iff.mpr ⟨s, s, rfl, ?_⟩
  cases hlook : s.metrics.lookup (Lowering.sourceKey value width) with
  | some c =>
      rw [hlook, Option.some_or, Option.some.injEq] at h
      rw [h]
      rfl
  | none =>
      rw [hlook, Option.none_or] at h
      exact requireCost_eq _ cost s h

/-- How the cost of a unit is found: it is known, or there is none because the
    unit forwards or nothing can estimate it, or it is estimated and entered. -/
inductive UnitPriced (fu : FunctionalUnit) (s : Session) : Option Cost → Session → Prop where
  | known (cost : Cost) (hknown : s.metrics.lookup fu.key = some cost) :
      UnitPriced fu s (some cost) s
  | absent (warnings : List Warning) (habsent : s.metrics.lookup fu.key = none)
      (hwhy : fu.isForward = true ∨ s.estimator = none) :
      UnitPriced fu s none { s with warnings }
  | estimated (cost : Cost) (est : Estimator) (requests : List EstimateRequest) (files : Files)
      (warnings : List Warning) (habsent : s.metrics.lookup fu.key = none)
      (hcomputes : fu.isForward = false) (hest : s.estimator = some est) :
      UnitPriced fu s (some cost)
        { s with
          metrics := MetricsTable.put (normalizeKey fu.key) cost s.metrics
          requests, files, warnings }

/-- A result without a state leaves the session alone. -/
theorem lift_apply {α : Type} (x : Except Error α) (s : Session) :
    Session.lift x s = match x with
      | .ok a => .ok a s
      | .error e => .error e s := by
  cases x <;> rfl

/-- It succeeds exactly as it does on its own. -/
theorem lift_ok {α : Type} (x : Except Error α) (a : α) (s s' : Session)
    (h : Session.lift x s = .ok a s') : x = .ok a ∧ s' = s := by
  cases x with
  | error e => exact (throw_ok_iff.mp h).elim
  | ok b =>
      rcases pure_ok_iff.mp h with ⟨rfl, rfl⟩
      exact ⟨rfl, rfl⟩

/-- Requiring a cost looks at the table only. -/
theorem requireCost_run (key : String) (s : Session) : Session.requireCost key s =
    match s.metrics.require key with
    | .ok cost => .ok cost s
    | .error e => .error e s := by
  unfold Session.requireCost
  rw [get_bind_apply, lift_apply]
  cases s.metrics.require key <;> rfl

/-- Every request is counted, answered or not. -/
theorem ask_run (est : Estimator) (r : EstimateRequest) (s : Session) : Session.ask est r s =
    match est.answer s.requests r with
    | .ok raw => .ok raw { s with requests := s.requests ++ [r] }
    | .error fault =>
      .error (.synthesis r.name fault) { s with requests := s.requests ++ [r] } := by
  unfold Session.ask
  rw [get_bind_apply, set_bind_apply]
  cases est.answer s.requests r <;> rfl

/-- A unit without an entry is entered without a warning. -/
theorem insertCost_run (key : String) (cost : Cost) (s : Session)
    (habsent : s.metrics.lookup key = none) : Session.insertCost key cost s =
      .ok () { s with metrics := MetricsTable.put (normalizeKey key) cost s.metrics } := by
  have hinsert : s.metrics.insert key cost
      = (MetricsTable.put (normalizeKey key) cost s.metrics, []) := by
    unfold MetricsTable.insert
    rw [habsent]
  have hrun : Session.insertCost key cost s = .ok () { s with
      metrics := (s.metrics.insert key cost).1
      warnings := s.warnings ++ (s.metrics.insert key cost).2 } := rfl
  rw [hrun, hinsert, List.append_nil]

/-- A record is appended if there is a file for it. -/
theorem persist_run (key : String) (cost : Cost) (s : Session) : Session.persist key cost s =
    match s.custom with
    | none => .ok () s
    | some path =>
      match s.files.append path (recordLine (normalizeKey key) cost) with
      | .ok files => .ok () { s with files }
      | .error e => .error e s := by
  unfold Session.persist
  rw [get_bind_apply]
  cases s.custom with
  | none => rfl
  | some path =>
      dsimp only
      rw [bind_apply, lift_apply]
      cases s.files.append path (recordLine (normalizeKey key) cost) <;> rfl

/-- Estimating a unit that has no entry, step by step. -/
theorem synthesize_run (est : Estimator) (fu : FunctionalUnit) (graph : CostGraph) (s : Session)
    (habsent : s.metrics.lookup fu.key = none) : Session.synthesize est fu graph s =
      match s.metrics.require Session.latchKey with
      | .error e => .error e s
      | .ok latch =>
        match s.metrics.require Session.twoToOneKey with
        | .error e => .error e s
        | .ok twoToOne =>
          let asked := { s with requests := s.requests ++ [graph.request fu] }
          match est.answer s.requests (graph.request fu) with
          | .error fault => .error (.synthesis (graph.request fu).name fault) asked
          | .ok raw =>
            match raw.normalize (graph.request fu) latch twoToOne with
            | .error e => .error e asked
            | .ok cost =>
              let entered := { asked with
                metrics := MetricsTable.put (normalizeKey fu.key) cost s.metrics }
              match s.custom with
              | none => .ok cost entered
              | some path =>
                match s.files.append path (recordLine (normalizeKey fu.key) cost) with
                | .ok files => .ok cost { entered with files }
                | .error e => .error e entered := by
  -- The first part of each sequence is known, and the rest goes on from its result.
  unfold Session.synthesize
  rw [bind_apply, requireCost_run]
  cases s.metrics.require Session.latchKey with
  | error e => rfl
  | ok latch =>
  dsimp only
  rw [bind_apply, requireCost_run]
  cases s.metrics.require Session.twoToOneKey with
  | error e => rfl
  | ok twoToOne =>
  dsimp only
  rw [bind_apply, ask_run]
  cases est.answer s.requests (graph.request fu) with
  | error fault => rfl
  | ok raw =>
  dsimp only
  rw [bind_apply, lift_apply]
  cases raw.normalize (graph.request fu) latch twoToOne with
  | error e => rfl
  | ok cost =>
  dsimp only
  have hinsert := insertCost_run fu.key cost { s with requests := s.requests ++ [graph.request fu] }
    habsent
  rw [bind_of_ok hinsert, bind_apply, persist_run]
  cases s.custom with
  | none => rfl
  | some path =>
  dsimp only
  cases s.files.append path (recordLine (normalizeKey fu.key) cost) <;> rfl

/-- What it takes to estimate a unit that has no entry, and what that leaves. -/
theorem synthesize_ok (est : Estimator) (fu : FunctionalUnit) (graph : CostGraph) (cost : Cost)
    (s s' : Session) (habsent : s.metrics.lookup fu.key = none)
    (h : Session.synthesize est fu graph s = .ok cost s') : ∃ latch twoToOne raw files,
      s.metrics.require Session.latchKey = .ok latch ∧
      s.metrics.require Session.twoToOneKey = .ok twoToOne ∧
      est.answer s.requests (graph.request fu) = .ok raw ∧
      raw.normalize (graph.request fu) latch twoToOne = .ok cost ∧
      (s.custom = none → files = s.files) ∧
      (∀ path, s.custom = some path →
        s.files.append path (recordLine (normalizeKey fu.key) cost) = .ok files) ∧
      s' = { s with
        metrics := MetricsTable.put (normalizeKey fu.key) cost s.metrics
        requests := s.requests ++ [graph.request fu]
        files } := by
  rw [synthesize_run est fu graph s habsent] at h
  cases hlatch : s.metrics.require Session.latchKey with
  | error e =>
      rw [hlatch] at h
      cases h
  | ok latch =>
  cases hjoin : s.metrics.require Session.twoToOneKey with
  | error e =>
      rw [hlatch, hjoin] at h
      cases h
  | ok twoToOne =>
  simp only [hlatch, hjoin] at h
  cases hraw : est.answer s.requests (graph.request fu) with
  | error fault =>
      rw [hraw] at h
      cases h
  | ok raw =>
  simp only [hraw] at h
  cases hnormal : raw.normalize (graph.request fu) latch twoToOne with
  | error e =>
      rw [hnormal] at h
      cases h
  | ok c =>
  simp only [hnormal] at h
  -- With a cost, what is left is to keep the record.
  cases hcustom : s.custom with
  | none =>
      simp only [hcustom] at h
      cases h
      refine ⟨latch, twoToOne, raw, s.files, rfl, rfl, rfl, hnormal, fun _ => rfl, ?_, rfl⟩
      intro path hpath
      cases hpath
  | some path =>
      simp only [hcustom] at h
      cases happend : s.files.append path (recordLine (normalizeKey fu.key) c) with
      | error e =>
          rw [happend] at h
          cases h
      | ok files =>
          rw [happend] at h
          cases h
          refine ⟨latch, twoToOne, raw, files, rfl, rfl, rfl, hnormal, ?_, ?_, rfl⟩
          · intro hnone
            cases hnone
          · intro path' hpath
            cases hpath
            exact happend

/-- The ways to find the cost of a unit. -/
theorem unitCost_ok (fu : FunctionalUnit) (graph : CostGraph) (cost : Option Cost)
    (s s' : Session) (h : Session.unitCost fu graph s = .ok cost s') : UnitPriced fu s cost s' := by
  rcases bind_ok_iff.mp h with ⟨s₀, s₁, hget, h⟩
  rcases get_ok_iff.mp hget with ⟨rfl, rfl⟩
  cases hlook : s.metrics.lookup fu.key with
  | some c =>
      rw [hlook] at h
      rcases pure_ok_iff.mp h with ⟨rfl, rfl⟩
      exact .known c hlook
  | none =>
      rw [hlook] at h
      -- Without an entry, the unit decides before the estimator is looked for.
      by_cases hforward : fu.isForward = true
      · simp only [if_pos hforward] at h
        rcases pure_ok_iff.mp h with ⟨rfl, rfl⟩
        exact .absent s.warnings hlook (Or.inl hforward)
      · simp only [if_neg hforward] at h
        cases hest : s.estimator with
        | none =>
            rw [hest] at h
            rcases bind_ok_iff.mp h with ⟨u, s₂, hwarn, h⟩
            have hs₂ := modify_ok_iff.mp hwarn
            rcases pure_ok_iff.mp h with ⟨rfl, rfl⟩
            rw [← hs₂]
            exact .absent _ hlook (Or.inr hest)
        | some est =>
            rw [hest] at h
            rcases bind_ok_iff.mp h with ⟨c, s₂, hsynth, h⟩
            rcases pure_ok_iff.mp h with ⟨rfl, rfl⟩
            rcases synthesize_ok est fu graph c s s₂ hlook hsynth with
              ⟨_, _, _, files, _, _, _, _, _, _, rfl⟩
            exact .estimated c est _ files s.warnings hlook (by simpa using hforward) hest

namespace Component

/-- The cost of a component according to a table. -/
def known (c : Component) (table : MetricsTable) : Option Cost :=
  match c with
  | .source value width => (table.lookup (Lowering.sourceKey value width)).or
      (table.lookup (Lowering.genericSourceKey width))
  | c => table.lookup c.key

/-- How the question for the cost of a component is answered. -/
inductive Answered (c : Component) (s : Session) : Option Cost → Session → Prop where
  /-- The table has the answer. -/
  | found (cost : Cost) (hknown : c.known s.metrics = some cost) : Answered c s (some cost) s
  | unit (fu : FunctionalUnit) (cost : Option Cost) (s' : Session) (hunit : c = .unit fu)
      (hpriced : UnitPriced fu s cost s') : Answered c s cost s'

/-- The ways to answer a question. -/
theorem ask_ok (c : Component) (cost : Option Cost) (s s' : Session)
    (h : c.ask s = .ok cost s') : c.Answered s cost s' := by
  have hrequired : ∀ key, (do return some (← Session.requireCost key) : Session.Step (Option Cost))
      s = .ok cost s' → ∃ a, cost = some a ∧ s.metrics.lookup key = some a ∧ s' = s := by
    intro key h
    rcases bind_ok_iff.mp h with ⟨a, s₁, hrun, h₁⟩
    rcases requireCost_ok _ _ _ _ hrun with ⟨hlook, hs₁⟩
    rcases pure_ok_iff.mp h₁ with ⟨hcost, hs'⟩
    exact ⟨a, hcost.symm, hlook, hs'.symm.trans hs₁⟩
  cases c with
  | source value width =>
      rcases bind_ok_iff.mp h with ⟨a, s₁, hrun, h₁⟩
      rcases sourceCost_ok _ _ _ _ _ hrun with ⟨hlook, hs₁⟩
      rcases pure_ok_iff.mp h₁ with ⟨hcost, hs'⟩
      rw [← hcost, ← hs', hs₁]
      exact .found a hlook
  | unit fu => exact .unit fu cost s' rfl (unitCost_ok fu fu.graph cost s s' h)
  | _ =>
      rcases hrequired _ h with ⟨a, rfl, hlook, rfl⟩
      exact .found a hlook

/-- Asking changes nothing but what is known. -/
theorem ask_frame (c : Component) (cost : Option Cost) (s s' : Session)
    (h : c.ask s = .ok cost s') :
    s'.cache = s.cache ∧ s'.stats = s.stats ∧ s'.pipeline = s.pipeline := by
  cases c.ask_ok cost s s' h with
  | found cost hknown => exact ⟨rfl, rfl, rfl⟩
  | unit fu _ _ hunit hpriced => cases hpriced <;> exact ⟨rfl, rfl, rfl⟩

end Component

end Questions

section Learning

/-- Entering a cost answers its key and no other. -/
theorem lookup_put (key k : String) (cost : Cost) (table : MetricsTable) :
    List.lookup k (MetricsTable.put key cost table)
      = if k = key then some cost else List.lookup k table := by
  induction table with
  | nil =>
      by_cases hk : k = key
      · simp [MetricsTable.put, hk]
      · have hb : (k == key) = false := by simp [hk]
        simp [MetricsTable.put, List.lookup_cons, hb, hk]
  | cons entry rest ih =>
      rcases entry with ⟨k₀, c₀⟩
      unfold MetricsTable.put
      -- An entry under the key is replaced where it stands, and without one the new entry comes
      -- last.
      by_cases hkey : k₀ = key
      · rw [if_pos hkey, List.lookup_cons, List.lookup_cons]
        by_cases hk : k = key
        · simp [hk, hkey]
        · have hb : (k == k₀) = false := by simp [hkey, hk]
          simp [hb, hk]
      · rw [if_neg hkey, List.lookup_cons, List.lookup_cons, ih]
        by_cases hk : k = k₀
        · subst hk
          simp [hkey]
        · have hb : (k == k₀) = false := by simp [hk]
          simp [hb]

/-- The keys under which something can be learned: those of units that compute
    something. -/
def ComputesKey (key : String) : Prop :=
  (normalizeKey key).toList.head? = some 'f' ∧ (keyPieces key).any isComputingPiece = true

/-- What asking does to a session: no entry changes, and new entries come from
    an estimator and stand under keys that compute something. -/
structure Learns (s s' : Session) : Prop where
  estimator : s'.estimator = s.estimator
  kept : ∀ key cost, s.metrics.lookup key = some cost → s'.metrics.lookup key = some cost
  learned : ∀ key, s.metrics.lookup key = none → s'.metrics.lookup key ≠ none →
    s.estimator ≠ none ∧ ComputesKey key

/-- Nothing is learned while the table stays the same. -/
theorem Learns.of_eq {s s' : Session} (hmetrics : s'.metrics = s.metrics)
    (hest : s'.estimator = s.estimator) : Learns s s' := by
  refine ⟨hest, fun key cost h => ?_, fun key hnone hsome => ?_⟩
  · rw [hmetrics]
    exact h
  · rw [hmetrics] at hsome
    exact absurd hnone hsome

/-- What is learned one after another is learned. -/
theorem Learns.trans {s t u : Session} (h₁ : Learns s t) (h₂ : Learns t u) : Learns s u := by
  refine ⟨h₂.estimator.trans h₁.estimator,
    fun key cost h => h₂.kept key cost (h₁.kept key cost h), fun key hnone hsome => ?_⟩
  cases hmid : t.metrics.lookup key with
  | none =>
      have hnew := h₂.learned key hmid hsome
      rw [h₁.estimator] at hnew
      exact hnew
  | some cost => exact h₁.learned key hnone (by rw [hmid]; exact Option.some_ne_none cost)

/-- A letter at the head of a key stays there. -/
theorem normalizeKey_head (key : String) (c : Char) (cs : List Char)
    (h : key.toList = c :: cs) (hc : c.isAlphanum = true) :
    (normalizeKey key).toList.head? = some c := by
  rw [normalizeKey, String.toList_ofList, h, List.map_cons, List.head?_cons,
    normalizeKeyChar_of_isAlphanum c hc]

/-- A unit that computes something has a key that computes. -/
theorem computesKey_of_spelled (fu : FunctionalUnit) (hfu : fu.Spelled) :
    ComputesKey fu.key ↔ fu.isForward = false := by
  -- Names of units start with an f, which the normalized key keeps.
  have hhead : (normalizeKey fu.key).toList.head? = some 'f' := by
    rcases hfu.name_toList with ⟨⟨cs, hcs⟩, _⟩
    have hkey : fu.key.toList = 'f' :: ('u' :: cs ++ '<' ::
        ((String.intercalate "," (fu.params.map toString)).toList ++ ['>'])) := by
      rw [FunctionalUnit.key, String.toList_append, String.toList_append, String.toList_append, hcs]
      simp
    exact normalizeKey_head fu.key 'f' _ hkey (by decide)
  rw [ComputesKey, hfu.isForward_eq]
  simp [hhead]

namespace Component

/-- Nothing is learned about components that are no units. -/
theorem not_computesKey (c : Component) (hc : ∀ fu, c ≠ .unit fu) : ¬ ComputesKey c.key := by
  rintro ⟨hhead, _⟩
  have hspelled : c.Spelled := by
    cases c with
    | unit fu => exact absurd rfl (hc fu)
    | _ => trivial
  -- Only the names of units start with an f, and the first character of a name
  -- stands in the table as it is.
  have hinitials := c.initials_eq hspelled
  cases hname : c.template.name.toList with
  | nil =>
      rw [hname] at hinitials
      cases c with
      | routing kind pipeline ports widths => cases pipeline <;> cases hinitials
      | _ => cases hinitials
  | cons a as =>
      have hkey : c.key.toList = a :: (as ++ ('<' ::
          ((String.intercalate "," (c.params.map toString)).toList ++ ['>']))) := by
        unfold key
        rw [String.toList_append, String.toList_append, String.toList_append, hname]
        simp
      have hinitial : c.initials.head? = some a := by
        rw [← hinitials, hname]
        rfl
      have halnum : a.isAlphanum = true := by
        cases c with
        | routing kind pipeline ports widths =>
            cases pipeline <;> (cases hinitial; decide)
        | _ => cases hinitial; decide
      rw [normalizeKey_head c.key a _ hkey halnum, Option.some.injEq] at hhead
      rw [hhead] at hinitial
      cases c with
      | unit fu => exact hc fu rfl
      | routing kind pipeline ports widths => cases pipeline <;> cases hinitial
      | _ => cases hinitial

/-- One question teaches the session at most the cost of a unit that computes
    something. -/
theorem learns_ask (c : Component) (hc : c.Spelled) (cost : Option Cost) (s s' : Session)
    (h : c.ask s = .ok cost s') : Learns s s' := by
  cases c.ask_ok cost s s' h with
  | found cost hknown => exact .of_eq rfl rfl
  | unit fu _ _ hunit hpriced =>
      cases hpriced with
      | known cost hknown => exact .of_eq rfl rfl
      | absent warnings habsent hwhy => exact .of_eq rfl rfl
      | estimated cost est requests files warnings habsent hcomputes hest =>
          rw [hunit] at hc
          have hlook : ∀ key, MetricsTable.lookup
              (MetricsTable.put (normalizeKey fu.key) cost s.metrics) key
                = if normalizeKey key = normalizeKey fu.key then some cost
                  else s.metrics.lookup key := fun key => lookup_put _ _ _ _
          refine ⟨rfl, fun key c hkey => ?_, fun key hnone hsome => ?_⟩
          · -- The entry that is made had none before.
            have hne : normalizeKey key ≠ normalizeKey fu.key := by
              intro heq
              have hsame : s.metrics.lookup key = s.metrics.lookup fu.key := by
                unfold MetricsTable.lookup
                rw [heq]
              rw [hsame, habsent] at hkey
              cases hkey
            rw [hlook, if_neg hne]
            exact hkey
          · -- An entry that is new is the one that is made.
            have heq : normalizeKey key = normalizeKey fu.key := by
              by_contra hne
              rw [hlook, if_neg hne] at hsome
              exact hsome hnone
            refine ⟨by rw [hest]; exact Option.some_ne_none est, ?_⟩
            have hfu := (computesKey_of_spelled fu hc).mpr hcomputes
            unfold ComputesKey keyPieces at hfu ⊢
            rw [heq]
            exact hfu

/-- An absence is not learned about a key that does not compute. -/
theorem lookup_stable (key : String) (s u : Session) (hl : Learns s u)
    (hkey : ¬ ComputesKey key) : u.metrics.lookup key = s.metrics.lookup key := by
  cases hlook : s.metrics.lookup key with
  | some cost => exact hl.kept key cost hlook
  | none =>
      by_contra hne
      exact hkey (hl.learned key hlook hne).2

/-- The key of a source of a width is none of a unit. -/
theorem not_computesKey_generic (width : Nat) :
    ¬ ComputesKey (Lowering.genericSourceKey width) := by
  rintro ⟨hhead, _⟩
  have hkey : (Lowering.genericSourceKey width).toList
      = 's' :: ("ource".toList ++ Nat.toDigits 10 width) := by
    rw [Lowering.genericSourceKey, String.toList_append, Text.toString_toList]
    rfl
  rw [normalizeKey_head _ 's' _ hkey (by decide)] at hhead
  cases hhead

/-- An answer is given again by every later table. -/
theorem known_stable (c : Component) (hc : c.Spelled) (cost : Option Cost) (s s' u : Session)
    (h : c.ask s = .ok cost s') (hl : Learns s' u) : c.known u.metrics = cost := by
  cases c.ask_ok cost s s' h with
  | found cost hknown =>
      cases c with
      | source value width =>
          -- The cost of the width is only taken while the value has none, so the
          -- value must not learn one later.
          have hkey : ¬ ComputesKey (Lowering.sourceKey value width) := by
            rw [← key_source]
            exact not_computesKey _ fun fu hfu => by cases hfu
          simp only [known] at hknown ⊢
          rw [lookup_stable _ s u hl hkey, lookup_stable _ s u hl (not_computesKey_generic width)]
          exact hknown
      | _ => exact hl.kept _ cost hknown
  | unit fu _ _ hunit hpriced =>
      rw [hunit] at hc ⊢
      cases hpriced with
      | known cost hknown => exact hl.kept _ cost hknown
      | absent warnings habsent hwhy =>
          -- A later entry would need an estimator and a unit that computes.
          by_contra hne
          rcases hl.learned fu.key habsent hne with ⟨hest, hcomputes⟩
          rcases hwhy with hforward | hnone
          · rw [(computesKey_of_spelled fu hc).mp hcomputes] at hforward
            cases hforward
          · exact hest hnone
      | estimated cost est requests files warnings habsent hcomputes hest =>
          refine hl.kept fu.key cost ?_
          change List.lookup (normalizeKey fu.key)
            (MetricsTable.put (normalizeKey fu.key) cost s.metrics) = some cost
          rw [lookup_put, if_pos rfl]

end Component

end Learning

section Runs

/-- A run of questions with their answers. Between two questions nothing that
    answers depend on changes. -/
inductive Asked : Session → List (Component × Option Cost) → Session → Prop where
  | done (s s' : Session) (hsame : s'.pricing = s.pricing) : Asked s [] s'
  | ask (s t t' s' : Session) (c : Component) (cost : Option Cost)
      (rest : List (Component × Option Cost)) (hsame : t.pricing = s.pricing)
      (hask : c.ask t = .ok cost t') (hrest : Asked t' rest s') : Asked s ((c, cost) :: rest) s'

/-- A run may start from any session with the same answers. -/
theorem Asked.congr {s t s' : Session} {sites : List (Component × Option Cost)}
    (h : Asked s sites s') (hsame : s.pricing = t.pricing) : Asked t sites s' := by
  cases h with
  | done _ _ hs => exact .done t s' (hs.trans hsame)
  | ask _ u u' _ c cost rest hu hask hrest =>
    exact .ask t u u' s' c cost rest (hu.trans hsame) hask hrest

/-- Two runs of questions are one. -/
theorem Asked.append {s t u : Session} {xs ys : List (Component × Option Cost)}
    (h₁ : Asked s xs t) (h₂ : Asked t ys u) : Asked s (xs ++ ys) u := by
  induction h₁ with
  | done s t hsame => exact h₂.congr hsame
  | ask s v v' t c cost rest hsame hask hrest ih => exact .ask s v v' u c cost _ hsame hask (ih h₂)

/-- A run of questions teaches what its questions teach, and the table at its end
    gives every answer again. -/
theorem Asked.learns {s s' : Session} {sites : List (Component × Option Cost)}
    (h : Asked s sites s') (hsites : ∀ site ∈ sites, site.1.Spelled) :
    Learns s s' ∧ ∀ site ∈ sites, site.1.known s'.metrics = site.2 := by
  -- What is learned behind a question is needed to keep its answer, so both
  -- parts go through the induction together.
  induction h with
  | done s s' hsame =>
      refine ⟨.of_eq (congrArg Pricing.metrics hsame) (congrArg Pricing.estimator hsame), ?_⟩
      exact fun site hsite => absurd hsite List.not_mem_nil
  | ask s t t' s' c cost rest hsame hask hrest ih =>
      rw [List.forall_mem_cons] at hsites
      rcases ih hsites.2 with ⟨hlearns, hknown⟩
      refine ⟨?_, ?_⟩
      · have hstart : Learns s t :=
          .of_eq (congrArg Pricing.metrics hsame) (congrArg Pricing.estimator hsame)
        exact hstart.trans ((c.learns_ask hsites.1 cost t t' hask).trans hlearns)
      · rw [List.forall_mem_cons]
        exact ⟨c.known_stable hsites.1 cost t t' s' hask hlearns, hknown⟩

/-- Lists of parameters with the same text are the same. -/
theorem params_inj (n m : Nat) (ns ms : List Nat)
    (h : String.intercalate "," ((n :: ns).map toString)
      = String.intercalate "," ((m :: ms).map toString)) : n :: ns = m :: ms := by
  -- Digits are no commas, so the text is cut where the numbers end.
  have hcomma : ∀ ks : List Nat, ∀ t ∈ ks.map toString, ',' ∉ t.toList := by
    intro ks t ht
    rcases List.mem_map.mp ht with ⟨k, _, rfl⟩
    rw [Text.toString_toList]
    exact notMem_of_isAlphanum ',' (by decide) _ (isAlphanum_toDigits k)
  have htexts := intercalate_inj ',' "," rfl _ _ (by simp) (by simp) (hcomma _) (hcomma _) h
  refine List.map_injective_iff.mpr (fun a b hab => toDigits_inj a b ?_) htexts
  rw [← Text.toString_toList, hab, Text.toString_toList]

namespace Component

/-- A key determines the answer that a table gives. -/
theorem known_congr (c d : Component) (hc : c.Spelled) (hd : d.Spelled) (h : c.key = d.key)
    (table : MetricsTable) : c.known table = d.known table := by
  have hname : c.template.name = d.template.name := by
    rw [← c.templateOf_key hc, ← d.templateOf_key hd, h]
  -- The initials tell a source from everything else.
  have hinitials : c.initials = d.initials := by
    rw [← c.initials_eq hc, ← d.initials_eq hd, hname]
  -- Only the answer about a source depends on more than the key.
  have hother : ∀ e : Component, (∀ v w, e ≠ .source v w) → e.known table = table.lookup e.key := by
    intro e he
    cases e with
    | source v w => exact absurd rfl (he v w)
    | _ => rfl
  by_cases hsource : ∃ v w, c = .source v w
  · rcases hsource with ⟨v, w, rfl⟩
    cases d with
    | source v' w' =>
        have htext : String.intercalate "," ([v, w].map toString)
            = String.intercalate "," ([v', w'].map toString) := by
          unfold key at h
          rw [hname, String.append_left_inj, String.append_right_inj] at h
          exact h
        have hparams := params_inj v v' [w] [w'] htext
        simp only [List.cons.injEq, and_true] at hparams
        rw [hparams.1, hparams.2]
    | routing kind pipeline ports widths => cases pipeline <;> cases hinitials
    | _ => cases hinitials
  · have hd' : ∀ v w, d ≠ .source v w := by
      rintro v w rfl
      cases c with
      | source v' w' => exact hsource ⟨v', w', rfl⟩
      | routing kind pipeline ports widths => cases pipeline <;> cases hinitials
      | _ => cases hinitials
    rw [hother c fun v w heq => hsource ⟨v, w, heq⟩, hother d hd', h]

/-- A key determines the port costs that are written for a cost. -/
theorem portCosts_congr (c d : Component) (hc : c.Spelled) (hd : d.Spelled) (h : c.key = d.key)
    (cost : Option Cost) : c.portCosts cost = d.portCosts cost := by
  have hname : c.template.name = d.template.name := by
    rw [← c.templateOf_key hc, ← d.templateOf_key hd, h]
  rcases c.template_eq_of_name d hc hd hname with htemplate | ⟨fu, gu, rfl, rfl⟩
  · unfold portCosts
    rw [htemplate]
  · have hlength : fu.outputs.length = gu.outputs.length := by
      have hkey : fu.key = gu.key := h
      rw [hc.outputs_eq, hd.outputs_eq, hkey]
    change TemplateBody.portCosts (.func fu) cost = TemplateBody.portCosts (.func gu) cost
    simp only [TemplateBody.portCosts, Lowering.unitPortCosts, hlength]

end Component

end Runs

end DataflowCircuit
