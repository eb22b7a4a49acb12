import DataflowCircuit.Proofs.Lowering.FanOut
import DataflowCircuit.Proofs.Process.Resolved

/-!
# Safe Steps

Lowering checks what earlier passes should have made sure of: that a channel
has a width, that a read was counted, that the argument of a unit was served
and that a split was served two wires. A failed check is a contradiction. It
says that two passes disagree, and no input should lead to one.

A step is safe if it stops with no contradiction. Most steps are safe wherever
they start, because the errors they can stop with are about costs, files or the
shape of an element, and this file goes through them. What they need to know is
that every channel is a root, which has a width. Serving a read is the step
that is left out here: whether it succeeds depends on the plan.

## Main definitions

* `Error.isContradiction`: Is an error one that no input should lead to?
* `SafeAt`, `Safe`, `SafeResult`: Stopping with no contradiction.

## Theorems

* `safeAt_bind`, `safe_bind`, `safe_guard`: How safe steps are put together.
* `Session.safe_unitCost`: The cost of a unit.
* `Expr.safe_lower`: Expressions over roots.
* `Lowering.safe_emit`: Instances.
* `Lowering.safe_addMembers`: Members over roots.
* `Lowering.safe_emitUnit`: A unit whose arguments were served.
-/

namespace DataflowCircuit

/-- Is an error one that no input should lead to? -/
def Error.isContradiction : Error → Bool
  | .inconsistentGraph _ | .passDivergence _ _ => true
  | _ => false

section Safety

variable {σ α β : Type}

/-- A step that does not stop with a contradiction when it starts from `s`. -/
def SafeAt (m : EStateM Error σ α) (s : σ) : Prop :=
  ∀ e s', m s = .error e s' → e.isContradiction = false

/-- A step that stops with no contradiction wherever it starts. -/
def Safe (m : EStateM Error σ α) : Prop :=
  ∀ s, SafeAt m s

/-- A result that is no contradiction. -/
def SafeResult (x : Except Error α) : Prop :=
  ∀ e, x = .error e → e.isContradiction = false

theorem safe_pure (a : α) : Safe (pure a : EStateM Error σ α) := by
  intro s e s' h
  cases h

/-- Throwing is safe if what is thrown is no contradiction. -/
theorem safe_throw (e : Error) (he : e.isContradiction = false) :
    Safe (throw e : EStateM Error σ α) := by
  intro s e' s' h
  -- The error of the run is the one that is thrown.
  cases h
  exact he

/-- A sequence is safe if its first part is, and the rest is safe from every
    state that the first part can leave. -/
theorem safeAt_bind {m : EStateM Error σ α} {k : α → EStateM Error σ β} {s : σ}
    (hm : SafeAt m s) (hk : ∀ a s', m s = .ok a s' → SafeAt (k a) s') : SafeAt (m >>= k) s := by
  intro e s'' h
  -- A sequence fails in its first part, or in the rest from where the first part stopped.
  rcases bind_error_iff.mp h with hfirst | ⟨a, s', hs, hrest⟩
  · exact hm e s'' hfirst
  · exact hk a s' hs e s'' hrest

theorem safe_bind {m : EStateM Error σ α} {k : α → EStateM Error σ β} (hm : Safe m)
    (hk : ∀ a, Safe (k a)) : Safe (m >>= k) :=
  fun s => safeAt_bind (hm s) fun a s' _ => hk a s'

theorem safe_get : Safe (get : EStateM Error σ σ) := by
  intro s e s' h
  cases h

theorem safe_set (t : σ) : Safe (set t : EStateM Error σ PUnit) := by
  intro s e s' h
  cases h

theorem safe_modify (f : σ → σ) : Safe (modify f : EStateM Error σ PUnit) := by
  intro s e s' h
  cases h

/-- A check whose error is no contradiction is safe if the rest is. -/
theorem safe_guard (c : Prop) [Decidable c] (e : Error) (k : PUnit → EStateM Error σ β)
    (he : e.isContradiction = false) (hk : Safe (k PUnit.unit)) :
    Safe (if c then throw e >>= k else k PUnit.unit) := by
  by_cases hc : c
  · rw [if_pos hc]
    -- The check throws, so the rest is never reached.
    exact fun s => safeAt_bind (safe_throw e he s) fun a s' h => (throw_ok_iff.mp h).elim
  · rw [if_neg hc]
    exact hk

theorem safeResult_ok (a : α) : SafeResult (.ok a) := by
  intro e h
  cases h

/-- The rest of a computation only matters for the result that the first part
    has. -/
theorem safeResult_bind {x : Except Error α} {k : α → Except Error β} (hx : SafeResult x)
    (hk : ∀ a, x = .ok a → SafeResult (k a)) : SafeResult (x >>= k) := by
  cases x with
  | ok a => exact hk a rfl
  | error e =>
      intro e' h
      cases h
      exact hx e rfl

end Safety

namespace Session

/-- Lifting a result is as safe as the result. -/
theorem safe_lift {α : Type} (x : Except Error α) (hx : SafeResult x) : Safe (lift x) := by
  cases x with
  | ok a => exact safe_pure a
  | error e => exact safe_throw e (hx e rfl)

/-- A cost that is missing is reported by its key, which contradicts nothing. -/
theorem safe_requireCost (key : String) : Safe (requireCost key) := by
  refine safe_bind safe_get fun s => safe_lift _ ?_
  unfold MetricsTable.require
  cases s.metrics.lookup key with
  | some cost => exact safeResult_ok cost
  | none =>
      intro e h
      cases h
      rfl

theorem safe_insertCost (key : String) (cost : Cost) : Safe (insertCost key cost) :=
  safe_bind safe_get fun _ => safe_bind (safe_modify _) fun _ => safe_modify _

/-- The custom file may be missing or unwritable, and that is a fault of the
    files. -/
theorem safe_persist (key : String) (cost : Cost) : Safe (persist key cost) := by
  refine safe_bind safe_get fun s => ?_
  cases s.custom with
  | none => exact safe_pure ()
  | some path =>
      refine safe_bind (safe_lift _ ?_) fun _ => safe_set _
      -- Writing fails only if the path leads to no file.
      unfold Files.append
      cases s.files.target path with
      | ok p => exact safeResult_ok _
      | error fault =>
          intro e h
          cases h
          rfl

/-- The estimator fails with a synthesis fault of its own. -/
theorem safe_ask (est : Estimator) (request : EstimateRequest) : Safe (ask est request) := by
  refine safe_bind safe_get fun s => safe_bind (safe_set _) fun _ => ?_
  cases est.answer s.requests request with
  | ok raw => exact safe_pure raw
  -- Whatever the fault says, it is reported as one of the estimator.
  | error fault => exact safe_throw _ rfl

/-- An answer can only be out of range. -/
theorem safeResult_normalize (raw : RawCost) (request : EstimateRequest)
    (latch twoToOne : Cost) : SafeResult (raw.normalize request latch twoToOne) := by
  refine safeResult_bind ?_ fun _ _ => safeResult_ok _
  -- The delays are the only sum that is checked.
  unfold addDelays
  split
  · exact safeResult_ok _
  · intro e h
    cases h
    rfl

/-- The cost of a unit can be missing or out of range, but asking for it
    contradicts nothing. -/
theorem safe_unitCost (fu : FunctionalUnit) (graph : CostGraph) : Safe (unitCost fu graph) := by
  -- The estimator is the longest way to a cost: two costs of the frame, its answer, and the
  -- new entry.
  have hsynth : ∀ est, Safe (synthesize est fu graph) := by
    intro est
    refine safe_bind (safe_requireCost _) fun latch => safe_bind (safe_requireCost _) fun join => ?_
    refine safe_bind (safe_ask est _) fun raw => ?_
    refine safe_bind (safe_lift _ (safeResult_normalize raw _ latch join)) fun cost => ?_
    exact safe_bind (safe_insertCost _ cost) fun _ =>
      safe_bind (safe_persist _ cost) fun _ => safe_pure cost
  refine safe_bind safe_get fun s => ?_
  cases s.metrics.lookup fu.key with
  | some cost => exact safe_pure _
  | none =>
      -- A unit that only forwards needs no cost, with or without an estimator.
      by_cases hforward : fu.isForward = true
      · simp only [if_pos hforward]
        exact safe_pure _
      · simp only [if_neg hforward]
        cases s.estimator with
        | none => exact safe_bind (safe_modify _) fun _ => safe_pure _
        | some est => exact safe_bind (hsynth est) fun _ => safe_pure _

/-- A source that has no cost of its own takes that of its width. -/
theorem safe_sourceCost (value width : Nat) : Safe (Lowering.sourceCost value width) := by
  refine safe_bind safe_get fun s => ?_
  cases s.metrics.lookup (Lowering.sourceKey value width) with
  | some cost => exact safe_pure cost
  | none => exact safe_requireCost _

theorem safe_disambiguate (name body : String) : Safe (disambiguate name body) :=
  safe_bind safe_get fun _ => safe_bind (safe_modify _) fun _ =>
    safe_bind (safe_modify _) fun _ => safe_pure _

/-- A tally only fails if its sum leaves the range. -/
theorem safeResult_add (key : String) (n : Int) (t : Tally) : SafeResult (t.add key n) := by
  induction t with
  | nil => exact safeResult_ok _
  | cons entry rest ih =>
      rcases entry with ⟨k, m⟩
      unfold Tally.add
      split
      -- The entry of the key itself: its sum is checked.
      · split
        · exact safeResult_ok _
        · intro e h
          cases h
          rfl
      · exact safeResult_bind ih fun _ _ => safeResult_ok _

/-- Counting a cost adds to two tallies, and each sum is checked. -/
theorem safe_recordCost (key : String) (cost : Cost) : Safe (recordCost key cost) := by
  refine safe_bind safe_get fun s => safe_bind (safe_lift _ ?_) fun _ => safe_set _
  refine safeResult_bind (safeResult_add key _ _) fun _ _ => ?_
  exact safeResult_bind (safeResult_add key _ _) fun _ _ => safeResult_ok _

theorem safe_addTemplate (name : String) : Safe (addTemplate name) :=
  safe_bind safe_get fun _ => safe_bind (safe_modify _) fun _ => safe_pure _

theorem safe_addInstance (key : String) : Safe (addInstance key) :=
  safe_bind safe_get fun _ => safe_bind (safe_modify _) fun _ => safe_pure _

end Session

/-- The width of a root is recorded. -/
theorem Scope.width_of_isRoot (s : Scope) (id : ChannelId) (h : s.IsRoot id) :
    ∃ w, s.width id = .ok w := by
  rcases s.channel_of_lt id h.1 with ⟨c, hc⟩
  refine ⟨c.width, (width_ok_iff s id _).mpr ?_⟩
  -- A root is its own canonical channel, so its own entry is looked at.
  have hroot : s.isCanonical id = true := decide_eq_true h.2
  rw [Scope.width?, if_pos hroot, hc]
  rfl

/-- Asking for the width of a root is safe. -/
theorem safeResult_width (s : Scope) (id : ChannelId) (h : s.IsRoot id) :
    SafeResult (s.width id) := by
  rcases s.width_of_isRoot id h with ⟨w, hw⟩
  rw [hw]
  exact safeResult_ok w

section Builders

variable (s : Scope) (element : String)

theorem UnitBuilder.safe_lift {α : Type} (x : Except Error α) (hx : SafeResult x) :
    Safe (UnitBuilder.lift x) := by
  cases x with
  | ok a => exact safe_pure a
  | error e => exact safe_throw e (hx e rfl)

theorem UnitBuilder.safe_push (t : NameToken) (op : Operation) (w : Nat) :
    Safe (UnitBuilder.push t op w) :=
  safe_bind safe_get fun _ => safe_bind (safe_set _) fun _ => safe_pure _

/-- The argument of a unit is a root, which has a width. -/
theorem UnitBuilder.safe_arg (id : ChannelId) (h : s.IsRoot id) : Safe (UnitBuilder.arg s id) := by
  refine safe_bind safe_get fun b => ?_
  -- Only a channel that has no slot yet is asked for its width.
  cases b.args.idxOf? id with
  | some slot => exact safe_pure _
  | none =>
      refine safe_bind (UnitBuilder.safe_lift _ (safeResult_width s id h)) fun w => ?_
      exact safe_bind (safe_set _) fun _ => safe_pure _

/-- The natural width of an expression over roots is found. -/
theorem Expr.safeResult_naturalWidth (e : Expr) (he : e.Resolved s) :
    SafeResult (e.naturalWidth s) := by
  induction e with
  | const v => exact safeResult_ok _
  | var id => exact safeResult_width s id he
  | binary op lhs rhs ihl ihr =>
      unfold naturalWidth
      -- A comparison has one bit, and its operands are not asked.
      split
      · exact safeResult_ok 1
      · exact safeResult_bind (ihl he.1) fun _ _ =>
          safeResult_bind (ihr he.2) fun _ _ => safeResult_ok _
  | unary op arg ih => exact ih he
  | query c t e ihc iht ihe =>
      exact safeResult_bind (iht he.2.1) fun _ _ =>
        safeResult_bind (ihe he.2.2) fun _ _ => safeResult_ok _
  | cast arg w ih =>
      cases w with
      | some w => exact safeResult_ok w
      | none => exact ih he.1

/-- Lowering an expression over roots is safe: what can go wrong is its
    shape. -/
theorem Expr.safe_lower (e : Expr) (he : e.Resolved s) (w : Nat) :
    Safe (e.lower s element w) := by
  induction e generalizing w with
  | const v => exact safe_pure _
  | var id => exact UnitBuilder.safe_arg s id he
  | cast arg v ih => exact ih he.1 (v.getD w)
  | unary op arg ih =>
      refine safe_bind (ih he w) fun a => safe_guard _ _ _ rfl ?_
      exact safe_bind (UnitBuilder.safe_push _ _ _) fun _ => safe_pure _
  | binary op lhs rhs ihl ihr =>
      -- The operands of a comparison are measured, those of other operators take its width.
      have hwidth : SafeResult (operandWidth s op lhs rhs w) := by
        unfold operandWidth
        split
        · exact safeResult_bind (lhs.safeResult_naturalWidth s he.1) fun _ _ =>
            safeResult_bind (rhs.safeResult_naturalWidth s he.2) fun _ _ => safeResult_ok _
        · exact safeResult_ok w
      refine safe_bind (UnitBuilder.safe_lift _ hwidth) fun v => ?_
      refine safe_bind (ihl he.1 v) fun l => safe_bind (ihr he.2 v) fun r => ?_
      refine safe_guard _ _ _ rfl ?_
      exact safe_bind (UnitBuilder.safe_push _ _ _) fun _ => safe_pure _
  | query c t e ihc iht ihe =>
      refine safe_bind (ihc he.1 1) fun x => safe_bind (iht he.2.1 w) fun y => ?_
      -- Two checks follow the three parts: the branches differ, and not all is constant.
      refine safe_bind (ihe he.2.2 w) fun z => safe_guard _ _ _ rfl (safe_guard _ _ _ rfl ?_)
      exact safe_bind (UnitBuilder.safe_push _ _ _) fun _ => safe_pure _

/-- A body that is a constant has no output, and is refused for its shape. -/
theorem Expr.safe_lowerOutput (e : Expr) (he : e.Resolved s) (w : Nat) :
    Safe (e.lowerOutput s element w) := by
  refine safe_bind (e.safe_lower s element he w) fun a => ?_
  cases a with
  | res index => exact safe_pure index
  | const v => exact safe_throw _ rfl
  | arg slot => exact UnitBuilder.safe_push _ _ _

end Builders

namespace Lowering

section Steps

theorem safe_lift {α : Type} (x : Except Error α) (hx : SafeResult x) : Safe (lift x) := by
  cases x with
  | ok a => exact safe_pure a
  | error e => exact safe_throw e (hx e rfl)

/-- A step of the session is as safe as it is alone. -/
theorem safe_onSession {α : Type} {m : Session.Step α} (hm : Safe m) : Safe (onSession m) := by
  intro l e l' h
  unfold onSession at h
  cases hs : m l.session with
  | ok a s =>
      rw [hs] at h
      cases h
  | error e' s =>
      rw [hs] at h
      cases h
      exact hm l.session e s hs

/-- So is a step of the builder. -/
theorem safe_onBuilder {α : Type} (step : UnitBuilder.Step α) (b : UnitBuilder) (hs : Safe step) :
    Safe (onBuilder step b) := by
  unfold onBuilder
  cases hstep : step b with
  | ok a b' => exact safe_pure _
  | error e b' => exact safe_throw e (hs b e b' hstep)

theorem safe_draw (request : NameSupply.Request) : Safe (draw request) :=
  safe_bind safe_get fun _ => safe_bind (safe_modify _) fun _ => safe_pure _

theorem safe_when {m : Step Unit} {k : Unit → Step Unit} (c : Bool) (hm : Safe m)
    (hk : ∀ u, Safe (k u)) : Safe (if c = true then m >>= k else k ()) := by
  cases c with
  | true => exact safe_bind hm hk
  | false => exact hk ()

/-- Registering a call can only overflow a tally. -/
theorem safe_register (template : Template) (cost : Option Cost) (ports : List PortCost)
    (key : String) : Safe (register template cost ports key) := by
  unfold register
  refine safe_bind (safe_onSession (Session.safe_addTemplate _)) fun new => ?_
  refine safe_when new (safe_modify _) fun _ => ?_
  refine safe_bind (safe_onSession (Session.safe_addInstance _)) fun isNew => ?_
  refine safe_when isNew (safe_modify _) fun _ => ?_
  -- Without a cost nothing is counted.
  cases cost with
  | none => exact safe_pure ()
  | some cost => exact safe_onSession (Session.safe_recordCost _ _)

/-- Writing an instance is safe. -/
theorem safe_emit (template : Template) (cost : Option Cost) (ports : List PortCost)
    (inst : Instance) : Safe (emit template cost ports inst) :=
  safe_bind (safe_register _ _ _ _) fun _ => safe_modify _

/-- So is writing the copies of a plan. -/
theorem safe_lowerCopies (sups : List Supply) : Safe (lowerCopies sups) := by
  induction sups with
  | nil => exact safe_pure ()
  | cons sup sups ih =>
      have hcopy : Safe (lowerCopy sup) := by
        refine safe_bind (safe_onSession (Session.safe_requireCost _)) fun cost => ?_
        refine safe_bind (safe_onSession (safe_modify _)) fun _ => ?_
        exact safe_bind (safe_register _ _ _ _) fun _ => safe_modify _
      exact safe_bind hcopy fun _ => ih

/-- Sinks are safe one after another. -/
theorem safe_sinkWires (width : Nat) (ws : List String) : Safe (sinkWires width ws) := by
  induction ws with
  | nil => exact safe_pure ()
  | cons wire ws ih =>
      have hsink : Safe (sinkWire wire width) :=
        safe_bind (safe_onSession (Session.safe_requireCost _)) fun _ => safe_emit _ _ _ _
      exact safe_bind hsink fun _ => ih

/-- Connecting the outputs of a split asks nothing that an earlier pass has
    answered. -/
theorem safe_connectOutputs (sub : Subject) (element : String) (width : Nat)
    (outputs : List (Option ChannelId)) : Safe (connectOutputs sub element width outputs) := by
  induction outputs with
  | nil => exact safe_pure _
  | cons out outputs ih =>
      cases hout : out.filter (isConsumed sub) with
      | some id =>
          rw [connectOutputs_observed sub element width out outputs id hout]
          exact safe_bind ih fun _ => safe_pure _
      | none =>
          -- Reporting the output comes before its sink.
          have hwarn : Safe (warnUnread sub element out) := by
            cases out with
            | none => exact safe_pure ()
            | some id =>
                unfold warnUnread
                exact safe_onSession (safe_modify _)
          rw [connectOutputs_sunk sub element width out outputs hout]
          exact safe_bind hwarn fun _ => safe_bind (safe_draw _) fun _ =>
            safe_bind (safe_modify _) fun _ => safe_bind ih fun _ => safe_pure _

/-- A join looks up one cost and is one instance. -/
theorem safe_join (sub : Subject) (template : Template) (key : String) (inputs : List String)
    (outs : List ChannelId) : Safe (join sub template key inputs outs) :=
  safe_bind (safe_onSession (Session.safe_requireCost _)) fun _ => safe_emit _ _ _ _

variable (sub : Subject) (element : String) (clustered : Bool)

/-- Adding a member over roots is safe. -/
theorem safe_addMember (position : Nat) (f : Func ChannelId Expr) (ms : Members)
    (hf : f.WellFormed sub.scope.IsRoot (Expr.Resolved sub.scope)) :
    Safe (addMember sub element clustered position f ms) := by
  unfold addMember
  cases hout : f.output with
  | none => exact safe_throw _ rfl
  | some out =>
      have hwidth := safe_lift _ (safeResult_width sub.scope out (hf.output out hout))
      refine safe_bind hwidth fun width => ?_
      cases f.expr.asConst? with
      | some value =>
          refine safe_bind ?_ fun _ => safe_pure _
          -- A literal that does not fit is refused before its cost is asked for.
          refine safe_bind hwidth fun width => safe_guard _ _ _ rfl ?_
          exact safe_bind (safe_onSession (Session.safe_sourceCost _ _)) fun _ => safe_emit _ _ _ _
      | none =>
          have hbody := f.expr.safe_lowerOutput sub.scope element hf.expr width
          refine safe_bind (safe_onBuilder _ _ hbody) fun pair => ?_
          have hdrive : Safe (driveOutput f (sub.scope.nameOf out) width) := by
            unfold driveOutput
            cases bufferDepth? f with
            | none => exact safe_pure _
            | some depth =>
                exact safe_bind (safe_draw _) fun _ =>
                  safe_bind (safe_modify _) fun _ => safe_pure _
          -- An initial token is checked against the width of the output.
          cases initialToken f with
          | none => exact safe_bind hdrive fun _ => safe_pure _
          | some v => exact safe_guard _ _ _ rfl (safe_bind hdrive fun _ => safe_pure _)

/-- Gathering members over roots is safe. -/
theorem safe_addMembers (position : Nat) (fs : List (Func ChannelId Expr)) (ms : Members)
    (hfs : ∀ f ∈ fs, f.WellFormed sub.scope.IsRoot (Expr.Resolved sub.scope)) :
    Safe (addMembers sub element clustered position fs ms) := by
  induction fs generalizing position ms with
  | nil => exact safe_pure ms
  | cons f fs ih =>
      refine safe_bind (safe_addMember sub element clustered position f ms
        (hfs f List.mem_cons_self)) fun ms₁ => ?_
      exact ih (position + 1) ms₁ fun g hg => hfs g (List.mem_cons_of_mem f hg)

/-- The costs of buffers are looked up one after another. -/
theorem safe_bufferCosts (bs : List PendingBuffer) : Safe (bufferCosts bs) := by
  induction bs with
  | nil => exact safe_pure []
  | cons b bs ih =>
      exact safe_bind (safe_onSession (Session.safe_requireCost _)) fun _ =>
        safe_bind ih fun _ => safe_pure _

theorem safe_emitBuffers (bs : List (PendingBuffer × Cost)) : Safe (emitBuffers bs) := by
  induction bs with
  | nil => exact safe_pure ()
  | cons b bs ih => exact safe_bind (safe_emit _ _ _ _) fun _ => ih

/-- Writing a unit is safe if its arguments are the channels that were
    served. -/
theorem safe_emitUnit (sources : List (ChannelId × String)) (ms : Members)
    (hargs : sources.map Prod.fst = ms.builder.args) (hnodup : ms.builder.args.Nodup) :
    Safe (emitUnit sub sources ms) := by
  -- Every argument is among the sources, because the sources are the arguments.
  have hfound : SafeResult (traverseList (sourceOf sub.scope sources) ms.builder.args) := by
    rw [← hargs, traverse_sourceOf sub.scope sources (by rw [hargs]; exact hnodup)]
    exact safeResult_ok _
  refine safe_bind (safe_bufferCosts _) fun costs => ?_
  refine safe_bind (safe_onSession (Session.safe_disambiguate _ _)) fun name => ?_
  refine safe_bind (safe_onSession (Session.safe_unitCost _ _)) fun cost => ?_
  refine safe_bind (safe_lift _ hfound) fun inputs => ?_
  exact safe_bind (safe_emit _ _ _ _) fun _ => safe_emitBuffers _

end Steps

end Lowering

end DataflowCircuit
