import DataflowCircuit.Lowering.Process
import DataflowCircuit.Proofs.Basic.Steps

/-!
# Operations of Lowering

Lowering is put together from a few operations on its state. What each of them
does when it succeeds is said here once, as an equivalence that names the state
it leaves, so that a run of a lowering function can be peeled without unfolding
the operations again.

Whether a run succeeds is another question, and where costs are counted the answer
depends on the sums. A session that knows no cost and cannot estimate one counts
nothing, so it writes every unit without buffers whose reads are served.

## Theorems

* `lift_ok_iff`, `onSession_ok_iff`, `onBuilder_ok_iff`: Steps of other kinds.
* `serve_ok_iff`, `draw_ok_iff`, `declareChannel_ok_iff`: Reads, fresh names and
  introduced channels.
* `unitCost_unestimated`, `unitCost_answers`: Costs without an estimator.
* `emit_uncounted`: An instance without a cost is always written.
* `lowerFuncs_unpriced`: So are functions in a session without costs.
-/

namespace DataflowCircuit

namespace Lowering

variable {α : Type} {a : α} {l l' : Lowering}

/-- A lifted result succeeds exactly if it is one. -/
@[simp] theorem lift_ok_iff {x : Except Error α} : lift x l = .ok a l' ↔ x = .ok a ∧ l' = l := by
  cases x with
  | ok b =>
      refine pure_ok_iff.trans ?_
      rw [Except.ok.injEq]
      exact and_congr Iff.rfl eq_comm
  | error e =>
      refine throw_ok_iff.trans ?_
      simp only [reduceCtorEq, false_and]

/-- A session step succeeds exactly if it does on the session of the state. -/
@[simp] theorem onSession_ok_iff {step : Session.Step α} :
    onSession step l = .ok a l' ↔
      ∃ s, step l.session = .ok a s ∧ l' = { l with session := s } := by
  unfold onSession
  cases hs : step l.session with
  | error e s =>
      constructor
      · intro h
        cases h
      · rintro ⟨s', h, _⟩
        cases h
  | ok b s =>
      constructor
      · intro h
        cases h
        exact ⟨s, rfl, rfl⟩
      · rintro ⟨s', h, rfl⟩
        cases h
        rfl

/-- A step of the builder succeeds exactly if it does on the builder it is run
    on, and does nothing else. -/
@[simp] theorem onBuilder_ok_iff {step : UnitBuilder.Step α} {b b' : UnitBuilder} :
    onBuilder step b l = .ok (a, b') l' ↔ step b = .ok a b' ∧ l' = l := by
  unfold onBuilder
  -- The builder is not part of the state, so the step is lifted like a result.
  cases step b with
  | ok a₁ b₁ =>
      refine pure_ok_iff.trans ?_
      rw [Prod.mk.injEq, EStateM.Result.ok.injEq]
      exact and_congr Iff.rfl eq_comm
  | error e b₁ =>
      refine throw_ok_iff.trans ?_
      simp only [reduceCtorEq, false_and]

/-- Serving a read asks the plan, and changes nothing else. -/
@[simp] theorem serve_ok_iff {id : ChannelId} {wire : String} :
    serve id l = .ok wire l' ↔
      ∃ plan, l.plan.next id = .ok (wire, plan) ∧ l' = { l with plan } := by
  unfold serve
  simp only [bind_ok_iff, get_ok_iff, lift_ok_iff, set_ok_iff, pure_ok_iff]
  constructor
  -- The plan is read from the state, asked, and put back.
  · rintro ⟨_, _, ⟨rfl, rfl⟩, ⟨_, plan⟩, _, ⟨hnext, rfl⟩, _, _, rfl, rfl, rfl⟩
    exact ⟨plan, hnext, rfl⟩
  · rintro ⟨plan, hnext, rfl⟩
    exact ⟨l, l, ⟨rfl, rfl⟩, (wire, plan), l, ⟨hnext, rfl⟩, (), _, rfl, rfl, rfl⟩

/-- Drawing a name gives the answer of the supply, and leaves the rest of the
    supply. -/
@[simp] theorem draw_ok_iff {request : NameSupply.Request} {name : String} :
    draw request l = .ok name l' ↔
      name = (l.names.answer request).1 ∧
        l' = { l with names := (l.names.answer request).2 } := by
  unfold draw
  simp only [bind_ok_iff, get_ok_iff, modify_ok_iff, pure_ok_iff]
  constructor
  · rintro ⟨_, _, ⟨rfl, rfl⟩, _, _, rfl, rfl, rfl⟩
    exact ⟨rfl, rfl⟩
  · rintro ⟨rfl, rfl⟩
    exact ⟨l, l, ⟨rfl, rfl⟩, (), _, rfl, rfl, rfl⟩

/-- Declaring a channel adds it to the output. -/
@[simp] theorem declareChannel_ok_iff {name : String} {width : Nat} {u : Unit} :
    declareChannel name width l = .ok u l' ↔
      l' = { l with
        out := { l.out with channels := l.out.channels ++ [⟨name, .int width⟩] } } :=
  modify_ok_iff.trans eq_comm

section Unpriced

/-- A unit that computes something and has no cost is reported if nothing can
    estimate it. -/
theorem unitCost_unestimated (fu : FunctionalUnit) (graph : CostGraph) (s : Session)
    (habsent : s.metrics.lookup fu.key = none) (hforward : ¬ fu.isForward = true)
    (hnone : s.estimator = none) : Session.unitCost fu graph s
      = .ok none { s with warnings := s.warnings ++ [.noEstimator fu.key] } := by
  rcases s with ⟨pipeline, cache, metrics, custom, estimator, requests, stats, warnings, files⟩
  cases hnone
  unfold Session.unitCost
  rw [get_bind_apply, habsent]
  simp only [if_neg hforward]
  rfl

/-- Without an estimator the answer is what the table has. -/
theorem unitCost_answers (fu : FunctionalUnit) (graph : CostGraph) (s : Session)
    (hnone : s.estimator = none) :
    ∃ ws, Session.unitCost fu graph s
      = .ok (s.metrics.lookup fu.key) { s with warnings := ws } := by
  cases hlook : s.metrics.lookup fu.key with
  | some cost =>
      refine ⟨s.warnings, ?_⟩
      unfold Session.unitCost
      rw [get_bind_apply, hlook]
      rfl
  | none =>
      -- A unit that computes something is reported, and that is no failure.
      by_cases hforward : fu.isForward = true
      · refine ⟨s.warnings, ?_⟩
        unfold Session.unitCost
        rw [get_bind_apply, hlook]
        simp only [if_pos hforward]
        rfl
      · exact ⟨_, unitCost_unestimated fu graph s hlook hforward hnone⟩

/-- An instance without a cost is always written, because nothing is counted. -/
theorem emit_uncounted (template : Template) (ports : List PortCost) (inst : Instance)
    (l : Lowering) : ∃ l', emit template none ports inst l = .ok () l' := by
  -- What is new is added to the output, and what is not leaves it alone.
  have hwhen : ∀ (new : Bool) (f : LoweredProcess → LoweredProcess) (k : PUnit → Step Unit),
      (∀ l, ∃ l', k ⟨⟩ l = .ok () l') → ∀ l, ∃ l',
        (if new = true then output f >>= k else k ⟨⟩) l = .ok () l' := by
    intro new f k hk l
    cases new with
    | true => exact hk { l with out := f l.out }
    | false => exact hk l
  have hregister : ∃ l', register template none ports inst.key l = .ok () l' := by
    refine exists_bind_ok (onSession_ok_iff.mpr ⟨_, rfl, rfl⟩) (hwhen _ _ _ (fun l => ?_) _)
    exact exists_bind_ok (onSession_ok_iff.mpr ⟨_, rfl, rfl⟩) (hwhen _ _ _ (fun l => ⟨l, rfl⟩) _)
  rcases hregister with ⟨l₁, hregister⟩
  exact exists_bind_ok hregister ⟨_, rfl⟩

/-- The unit of members without buffers is written in a session that knows no cost
    and has no estimator, if its arguments are served. -/
theorem emitUnit_unpriced (sub : Subject) (sources : List (ChannelId × String)) (ms : Members)
    (inputs : List String) (l : Lowering) (hbuffers : ms.buffers = [])
    (hmetrics : l.session.metrics = []) (hnone : l.session.estimator = none)
    (hserved : traverseList (sourceOf sub.scope sources) ms.builder.args = .ok inputs) :
    ∃ l', emitUnit sub sources ms l = .ok () l' := by
  have hname : ∀ name body : String, ∃ answer t,
      Session.disambiguate name body l.session = .ok answer t ∧ t.metrics = [] ∧
        t.estimator = none := fun _ _ => ⟨_, _, rfl, hmetrics, hnone⟩
  -- The table is empty, so no unit has a cost.
  have hcost : ∀ (fu : FunctionalUnit) (graph : CostGraph) (t : Session), t.metrics = [] →
      t.estimator = none → ∃ t', Session.unitCost fu graph t = .ok none t' := by
    intro fu graph t hmetrics hnone
    rcases unitCost_answers fu graph t hnone with ⟨ws, hcost⟩
    have hlook : t.metrics.lookup fu.key = none := by
      rw [hmetrics]
      rfl
    exact ⟨_, hlook ▸ hcost⟩
  unfold emitUnit
  rw [hbuffers, hserved]
  have hcosts : bufferCosts [] l = .ok [] l := rfl
  refine exists_bind_ok hcosts ?_
  rcases hname _ _ with ⟨answer, t, hanswer, hmetrics', hnone'⟩
  refine exists_bind_ok (onSession_ok_iff.mpr ⟨t, hanswer, rfl⟩) ?_
  rcases hcost _ _ t hmetrics' hnone' with ⟨t', hcost⟩
  refine exists_bind_ok (onSession_ok_iff.mpr ⟨t', hcost, rfl⟩)
    (exists_bind_ok (lift_ok_iff.mpr ⟨rfl, rfl⟩) ?_)
  rcases emit_uncounted _ _ _ _ with ⟨l', hemit⟩
  exact exists_bind_ok hemit ⟨l', rfl⟩

/-- In such a session functions without buffers are lowered as soon as their members
    are gathered. -/
theorem lowerFuncs_unpriced (sub : Subject) (el : Element ChannelId Expr) (clustered : Bool)
    (funcs : List (Func ChannelId Expr)) (sources : List (ChannelId × String)) (ms : Members)
    (inputs : List String) (l l₁ l₂ : Lowering) (hreads : resolveReads el l = .ok sources l₁)
    (hmembers : addMembers sub (el.print sub.scope) clustered 0 funcs .empty l₁ = .ok ms l₂)
    (hbuffers : ms.buffers = []) (hmetrics : l₂.session.metrics = [])
    (hnone : l₂.session.estimator = none)
    (hserved : traverseList (sourceOf sub.scope sources) ms.builder.args = .ok inputs) :
    ∃ l', lowerFuncs sub el clustered funcs l = .ok () l' := by
  refine exists_bind_ok hreads (exists_bind_ok hmembers ?_)
  by_cases hempty : ms.builder.statements.isEmpty = true
  · rw [if_pos hempty]
    exact ⟨l₂, rfl⟩
  · rw [if_neg hempty]
    exact emitUnit_unpriced sub sources ms inputs l₂ hbuffers hmetrics hnone hserved

end Unpriced

end Lowering

end DataflowCircuit
