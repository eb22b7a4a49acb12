import DataflowCircuit.Proofs.Compile.Failure
import DataflowCircuit.Proofs.Cost.EstimatedOnce
import DataflowCircuit.Proofs.Lowering.Closure
import DataflowCircuit.Proofs.Naming.FunctionNames

/-!
# Functions Keep Their Names

A template name that is taken by another body is replaced, and the replacement is
reported. Since the name of a function belongs to one body, this happens to clusters
only, whatever is lowered and in whatever order.

What carries over from step to step is said of the table of bodies. An entry was
made for a unit, and it is either a replacement, which no name that lowering makes
can be, or the name of that unit. So whoever finds a plain name taken by another
body has met a unit of the same name and another body, and it was not a function
that asked. Of the warnings nothing is needed for this, but the property has to
speak of them, because a renaming leaves no other trace that a run could be asked
for afterwards.

Nothing but naming a unit touches the table or reports a renaming. This also holds
of steps that fail, so a run may go on after a process that could not be lowered.

## Main definitions

* `Session.naming`: The part of a session that naming units changes.
* `Session.NamesOwned`: Names in the table belong to units, and renamings that
  were reported to clusters.

## Theorems

* `preserves_unitCost`: Pricing a unit names nothing.
* `NamesOwned.answer`: A function that asks for its name gets it.
* `keeps_emitUnit`, `keeps_lowerProcess`, `keeps_attemptAll`: Names stay owned.
* `function_names_determine_templates`: Functions of one name share a template, and
  no function is renamed.
-/

namespace DataflowCircuit

/-- Does a situation report that a template name was replaced? -/
def Warning.isRenaming : Warning → Bool
  | .renamed .. => true
  | _ => false

/-- The part of a session that naming units changes. -/
def Session.naming (s : Session) : Bodies × List Warning :=
  (s.cache.bodies, s.warnings.filter Warning.isRenaming)

section Pricing

variable {σ α β γ : Type} {part : σ → γ}

/-- A step that looks first preserves what each continuation does. -/
theorem preserves_get_bind {k : σ → EStateM Error σ β} (hk : ∀ s, Preserves part (k s)) :
    Preserves part (get >>= k) :=
  fun s => hk s s

/-- An outcome of something pure changes no session. -/
theorem preserves_sessionLift (x : Except Error α) :
    Preserves Session.naming (Session.lift x) := by
  intro s
  cases x <;> rfl

/-- Reporting anything else reports no renaming. -/
theorem preserves_warn (ws : List Warning) (hws : ∀ w ∈ ws, w.isRenaming = false) :
    Preserves Session.naming (Session.warn ws) := by
  intro s
  have hnone : ws.filter Warning.isRenaming = [] :=
    List.filter_eq_nil_iff.mpr fun w hw => by simp [hws w hw]
  change (s.cache.bodies, (s.warnings ++ ws).filter Warning.isRenaming) = s.naming
  rw [List.filter_append, hnone, List.append_nil]
  rfl

/-- Demanding a cost is a lookup. -/
theorem preserves_requireCost (key : String) :
    Preserves Session.naming (Session.requireCost key) :=
  preserves_get_bind fun _ => preserves_sessionLift _

/-- A new cost goes to the table of costs, and what it may report is a replaced
    entry. -/
theorem preserves_insertCost (key : String) (cost : Cost) :
    Preserves Session.naming (Session.insertCost key cost) := by
  refine preserves_get_bind fun s => preserves_bind (fun _ => rfl) fun _ => ?_
  refine preserves_warn _ fun w hw => ?_
  -- The only report is that of a conflict, and only if there is one.
  split at hw
  · split at hw
    · cases hw
    · rw [List.mem_singleton.mp hw]
      rfl
  · cases hw

/-- Writing to the custom file changes files only. -/
theorem preserves_persist (key : String) (cost : Cost) :
    Preserves Session.naming (Session.persist key cost) := by
  -- The session is set to the one that was asked for, so this is said of one session.
  intro s
  unfold Session.persist
  rw [get_bind_apply]
  cases s.custom with
  | none => rfl
  | some path =>
      dsimp only
      rw [bind_apply]
      cases s.files.append path (recordLine (normalizeKey key) cost) <;> rfl

/-- A request is added to the log of requests, answered or not. -/
theorem preserves_ask (est : Estimator) (request : EstimateRequest) :
    Preserves Session.naming (Session.ask est request) := by
  intro s
  unfold Session.ask
  rw [get_bind_apply, set_bind_apply]
  cases est.answer s.requests request <;> rfl

/-- Pricing a unit names nothing. -/
theorem preserves_unitCost (fu : FunctionalUnit) (graph : CostGraph) :
    Preserves Session.naming (Session.unitCost fu graph) := by
  refine preserves_get_bind fun s => ?_
  cases s.metrics.lookup fu.key with
  | some cost => exact preserves_pure _ _
  | none =>
      dsimp only
      split
      · exact preserves_pure _ _
      -- The request and the writing happen here, and only with an estimator.
      · cases s.estimator with
        | none => exact preserves_bind (preserves_warn _ (by simp [Warning.isRenaming])) fun _ =>
            preserves_pure _ _
        | some est =>
            -- Two costs are demanded, the request is sent, and the answer is entered and written.
            refine preserves_bind ?_ fun _ => preserves_pure _ _
            refine preserves_bind (preserves_requireCost _) fun _ => ?_
            refine preserves_bind (preserves_requireCost _) fun _ => ?_
            refine preserves_bind (preserves_ask _ _) fun _ => ?_
            refine preserves_bind (preserves_sessionLift _) fun _ => ?_
            refine preserves_bind (preserves_insertCost _ _) fun _ => ?_
            exact preserves_bind (preserves_persist _ _) fun _ => preserves_pure _ _

/-- Nor does pricing a literal name anything. -/
theorem preserves_sourceCost (value width : Nat) :
    Preserves Session.naming (Lowering.sourceCost value width) := by
  refine preserves_get_bind fun s => ?_
  cases s.metrics.lookup (Lowering.sourceKey value width) with
  | some cost => exact preserves_pure _ _
  | none => exact preserves_requireCost _

end Pricing

section Owned

/-- Names belong to units, and renamings that were not reported `before` to
    clusters. -/
structure Session.NamesOwned (before : List Warning) (s : Session) : Prop where
  /-- A plain name with a body is the name of a unit with that body. -/
  owned : ∀ name fp, ¬ IsHashed name → s.cache.bodies.lookup name = some fp →
    ∃ (scope : Scope) (el : Element ChannelId Expr) (fu : FunctionalUnit),
      el.unit? scope = some fu ∧ fu.name = name ∧ Text.fingerprint fu.body = fp
  renamed : ∀ name replacement, .renamed name replacement ∈ s.warnings →
    .renamed name replacement ∈ before ∨
      ∃ (scope : Scope) (funcs : List (Func ChannelId Expr)) (fu : FunctionalUnit),
        (Element.cluster funcs).unit? scope = some fu ∧ fu.name = name

variable {before : List Warning} {s s' : Session} {scope : Scope}
  {el : Element ChannelId Expr} {f : Func ChannelId Expr} {fu : FunctionalUnit}

/-- With nothing written, nothing has to belong to anyone. -/
theorem namesOwned_start (hfresh : s.cache = .empty) : s.NamesOwned s.warnings := by
  refine ⟨fun name fp _ hlook => ?_, fun name replacement hmem => Or.inl hmem⟩
  rw [hfresh] at hlook
  cases hlook

/-- It is said of the table and of the renamings only. -/
theorem Session.NamesOwned.congr (h : s.NamesOwned before) (hsame : s'.naming = s.naming) :
    s'.NamesOwned before := by
  rcases Prod.mk.inj hsame with ⟨hbodies, hwarnings⟩
  refine ⟨?_, fun name replacement hmem => ?_⟩
  · rw [hbodies]
    exact h.owned
  -- A renaming survives the filter, and so the filtered list is all that is needed.
  · have hrenaming : Warning.renamed name replacement ∈ s'.warnings.filter Warning.isRenaming :=
      List.mem_filter.mpr ⟨hmem, rfl⟩
    rw [hwarnings] at hrenaming
    exact h.renamed name replacement (List.mem_of_mem_filter hrenaming)

/-- The name of a unit is plain. -/
theorem not_isHashed_unit (hunit : el.unit? scope = some fu) : ¬ IsHashed fu.name := by
  rcases Element.unit?_tokens hunit with ⟨_, _, ts, _, hname, hpushed, _⟩
  rw [hname]
  exact not_isHashed_unitName ts hpushed

/-- An element that becomes a unit is a function or a cluster. -/
theorem func_or_cluster (hunit : el.unit? scope = some fu) :
    (∃ f, el = .func f) ∨ ∃ funcs, el = .cluster funcs := by
  cases el with
  | func f => exact Or.inl ⟨f, rfl⟩
  | cluster funcs => exact Or.inr ⟨funcs, rfl⟩
  | _ => cases hunit

/-- Only the body of a function is found under its name. -/
theorem Session.NamesOwned.body_of_func (h : s.NamesOwned before)
    (hunit : (Element.func f).unit? scope = some fu) (fp : UInt64)
    (hlook : s.cache.bodies.lookup fu.name = some fp) : fp = Text.fingerprint fu.body := by
  rcases h.owned fu.name fp (not_isHashed_unit hunit) hlook with ⟨_, el, gu, hgu, hname, hfp⟩
  -- A cluster has not made the entry, because no cluster is named like a function.
  rcases func_or_cluster hgu with ⟨g, rfl⟩ | ⟨funcs, rfl⟩
  · rcases unit_eq_of_func_name hgu hunit hname with ⟨hargs, hstatements, houtputs⟩
    rw [← hfp, gu.body_congr fu hargs hstatements houtputs]
  · exact absurd hname.symm (func_name_ne_cluster_name hunit hgu)

/-- A function that asks for its name gets it, and nothing is reported. -/
theorem Session.NamesOwned.answer (h : s.NamesOwned before)
    (hunit : (Element.func f).unit? scope = some fu) :
    (s.cache.disambiguate fu.name fu.body).1 = fu.name ∧
      (s.cache.disambiguate fu.name fu.body).2.2 = [] := by
  unfold Cache.disambiguate
  cases hlook : s.cache.bodies.lookup fu.name with
  | none => exact ⟨rfl, rfl⟩
  | some fp =>
      dsimp only
      rw [if_pos (h.body_of_func hunit fp hlook)]
      exact ⟨rfl, rfl⟩

/-- Naming the unit of an element keeps names owned. -/
theorem keeps_disambiguate (hunit : el.unit? scope = some fu) (h : s.NamesOwned before) :
    (endState (Session.disambiguate fu.name fu.body s)).NamesOwned before := by
  -- Naming cannot fail, so the session at the end can be written down.
  have hend : endState (Session.disambiguate fu.name fu.body s) = { s with
      cache := (s.cache.disambiguate fu.name fu.body).2.1
      warnings := s.warnings ++ (s.cache.disambiguate fu.name fu.body).2.2 } := rfl
  rw [hend]
  refine ⟨fun name fp hplain hlook => ?_, fun name replacement hmem => ?_⟩
  · dsimp only at hlook
    rw [Cache.disambiguate_bodies, Bodies.lookup_note _ _ _ _ hplain] at hlook
    cases hold : s.cache.bodies.lookup name with
    | some old =>
        rw [hold, Option.some_or] at hlook
        rw [Option.some.inj hlook] at hold
        exact h.owned name fp hplain hold
    | none =>
        -- A new entry under a plain name is the one that was asked for.
        rw [hold, Option.none_or] at hlook
        split at hlook
        · rename_i hname
          exact ⟨scope, el, fu, hunit, hname, Option.some.inj hlook⟩
        · cases hlook
  · rcases List.mem_append.mp hmem with hold | hnew
    · exact h.renamed name replacement hold
    · rcases func_or_cluster hunit with ⟨f, rfl⟩ | ⟨funcs, rfl⟩
      · -- A function is answered without a report.
        rw [(h.answer hunit).2] at hnew
        cases hnew
      · refine Or.inr ⟨scope, funcs, fu, hunit, ?_⟩
        unfold Cache.disambiguate at hnew
        dsimp only at hnew
        split at hnew
        · cases hnew
        · split at hnew
          · cases hnew
          · cases List.mem_singleton.mp hnew
            rfl

end Owned

section Steps

variable {σ α β : Type} {session : σ → Session} {before : List Warning}

/-- A step that keeps names owned, however it ends. The session is a part of the
    state. -/
def KeepsNames (session : σ → Session) (before : List Warning) (m : EStateM Error σ α) : Prop :=
  ∀ t, (session t).NamesOwned before → (session (endState (m t))).NamesOwned before

/-- A step that does not touch the names keeps them owned. -/
theorem keeps_of_preserves {m : EStateM Error σ α}
    (h : Preserves (fun t => (session t).naming) m) : KeepsNames session before m :=
  fun t ht => ht.congr (h t)

/-- Steps in a row keep names owned, also if the first of them fails. -/
theorem keeps_bind {m : EStateM Error σ α} {k : α → EStateM Error σ β}
    (hm : KeepsNames session before m)
    (hk : ∀ t a t', m t = .ok a t' → KeepsNames session before (k a)) :
    KeepsNames session before (m >>= k) := by
  intro t ht
  have hfirst := hm t ht
  rw [bind_apply]
  cases hrun : m t with
  | ok a t' =>
      rw [hrun] at hfirst
      exact hk t a t' hrun t' hfirst
  | error e t' =>
      rw [hrun] at hfirst
      exact hfirst

end Steps

namespace Lowering

variable {α β : Type} {before : List Warning}

/-- A step of the session ends in the session that it ends in alone. -/
theorem endState_onSession (step : Session.Step α) (l : Lowering) :
    (endState (onSession step l)).session = endState (step l.session) := by
  unfold onSession
  cases step l.session <;> rfl

/-- What a step preserves of the session, it preserves inside of lowering. -/
theorem preserves_onSession {step : Session.Step α} (h : Preserves Session.naming step) :
    Preserves (fun l => l.session.naming) (onSession step) := by
  intro l
  dsimp only
  rw [endState_onSession, h l.session]

/-- Serving a wire moves a cursor of the plan. -/
theorem preserves_serve (id : ChannelId) :
    Preserves (fun l => l.session.naming) (serve id) := by
  intro l
  unfold serve
  rw [get_bind_apply, bind_apply]
  cases l.plan.next id <;> rfl

/-- Statistics are kept apart from names. -/
theorem preserves_recordCost (key : String) (cost : Cost) :
    Preserves Session.naming (Session.recordCost key cost) := by
  intro s
  unfold Session.recordCost
  rw [get_bind_apply, bind_apply]
  -- A sum that overflows ends the step with the session unchanged.
  cases s.stats.record key cost <;> rfl

/-- The templates written are a part of the cache beside the table of bodies. -/
theorem preserves_addTemplate (name : String) :
    Preserves Session.naming (Session.addTemplate name) := by
  intro s
  refine Prod.ext (?_ : (s.cache.addTemplate name).2.bodies = s.cache.bodies) rfl
  unfold Cache.addTemplate
  split <;> rfl

/-- And so are the instances. -/
theorem preserves_addInstance (key : String) :
    Preserves Session.naming (Session.addInstance key) := by
  intro s
  refine Prod.ext (?_ : (s.cache.addInstance key).2.bodies = s.cache.bodies) rfl
  unfold Cache.addInstance
  split <;> rfl

/-- A step that is taken only if something is new may as well not be taken. -/
theorem preserves_when {σ γ : Type} {part : σ → γ} (new : Bool) {m : EStateM Error σ PUnit}
    (hm : Preserves part m) {k : PUnit → EStateM Error σ β} (hk : ∀ u, Preserves part (k u)) :
    Preserves part (if new = true then m >>= k else k PUnit.unit) := by
  cases new with
  | true => exact preserves_bind hm hk
  | false => exact hk _

/-- Writing templates and cost blocks leaves them alone as well. -/
theorem preserves_register (template : Template) (cost : Option Cost) (ports : List PortCost)
    (key : String) : Preserves (fun l => l.session.naming) (register template cost ports key) := by
  refine preserves_bind (preserves_onSession (preserves_addTemplate _)) fun new => ?_
  refine preserves_when new (fun _ => rfl) fun _ => ?_
  refine preserves_bind (preserves_onSession (preserves_addInstance _)) fun isNew => ?_
  refine preserves_when isNew (fun _ => rfl) fun _ => ?_
  cases cost with
  | none => exact preserves_pure _ _
  | some cost => exact preserves_onSession (preserves_recordCost key cost)

/-- Every operation but the naming of units keeps names owned. -/
theorem carried_keepsNames : Carried fun _ m => KeepsNames session before m where
  pure := fun _ _ h => h
  throw := fun _ _ h => h
  bind := fun _ hm hpost hk => keeps_bind hm fun l a l' hrun => hk a (hpost l a l' hrun)
  get := fun _ hk l => hk l l
  serve := fun id => keeps_of_preserves (preserves_serve id)
  draw := fun _ => keeps_of_preserves fun _ => rfl
  declare := fun _ _ => keeps_of_preserves fun _ => rfl
  unread := fun _ _ => keeps_of_preserves (preserves_onSession
    (preserves_warn _ (by simp [Warning.isRenaming])))
  require := fun key => keeps_of_preserves (preserves_onSession (preserves_requireCost key))
  source := fun value width =>
    keeps_of_preserves (preserves_onSession (preserves_sourceCost value width))
  recordCopy := fun _ _ => keeps_of_preserves fun _ => rfl
  register := fun template cost ports key =>
    keeps_of_preserves (preserves_register template cost ports key)
  addInstance := fun _ => keeps_of_preserves fun _ => rfl
  addCopy := fun _ => keeps_of_preserves fun _ => rfl

/-- So does writing the unit of an element. -/
theorem keeps_emitUnit : CarriesUnits fun _ m => KeepsNames session before m := by
  intro sub sources ms el _ hunit
  have h : Carried fun _ m => KeepsNames session before m := carried_keepsNames
  refine h.seq (h.bufferCosts ms.buffers) fun costs => ?_
  have hname : KeepsNames session before
      (onSession (Session.disambiguate ms.unit.name ms.unit.body)) := by
    intro l hl
    rw [endState_onSession]
    exact keeps_disambiguate hunit hl
  -- The other steps are operations that any property carried by lowering passes through.
  refine h.seq hname fun name => ?_
  refine h.seq (keeps_of_preserves (preserves_onSession (preserves_unitCost _ _))) fun cost => ?_
  refine h.seq (h.lift _) fun inputs => ?_
  exact h.seq (h.emit _ _ _ _) fun _ => h.emitBuffers _

end Lowering

section Runs

variable {before : List Warning}

/-- Lowering a process keeps names owned, even where it fails. -/
theorem keeps_lowerProcess (p : Process) : KeepsNames id before (lowerProcess p) := by
  intro s h
  rcases lowerProcess_ends p s with ⟨e, hrun⟩ | ⟨uses, plan, hrun⟩
  · rw [hrun]
    exact h
  · have hcarried : Lowering.Carried fun _ m => KeepsNames Lowering.session before m :=
      Lowering.carried_keepsNames
    -- A failure inside keeps what the steps before it did, so both ends are read off one run.
    have hend := hcarried.seq (hcarried.lowerCopies plan.copies)
      (fun _ => hcarried.lowerElements Lowering.keeps_emitUnit ⟨p, uses⟩ p.elements)
      ⟨s, plan, .ofNames p.scope.names, p.declarations⟩ h
    rw [hrun]
    split
    · rename_i hsteps
      rw [hsteps] at hend
      exact hend
    · rename_i hsteps
      rw [hsteps] at hend
      exact hend

/-- So does lowering processes until one fails. -/
theorem keeps_lowerAll (ps : Program) : KeepsNames id before (lowerAll ps) := by
  induction ps with
  | nil => exact fun _ h => h
  | cons p ps ih =>
      exact keeps_bind (keeps_lowerProcess p) fun _ _ _ _ => keeps_bind ih fun _ _ _ _ _ h => h

/-- And going on after failures. -/
theorem keeps_attemptAll (ps : Program) : KeepsNames id before (attemptAll ps) := by
  induction ps with
  | nil => exact fun _ h => h
  | cons p ps ih =>
      intro s h
      have hfirst := keeps_lowerProcess p s h
      -- The run goes on from the session that the process left, whether it succeeded or not.
      rcases attemptAll_cons p ps s with ⟨s', hp, hrun⟩ | ⟨_, hrun⟩
      · rw [hp] at hfirst
        rw [hrun]
        exact hfirst
      · rw [hrun]
        exact ih _ hfirst

/-- The name of a function determines its template. If the units of two functions,
    of any processes, are named alike before names are disambiguated, they have the
    same body, as many arguments, and the same statements and outputs up to widths.
    No cluster is named like a function. So in a run that starts with nothing
    written, whatever it lowers and wherever that fails, no name of a function is
    ever reported as replaced, and a function that asks for its name in the end gets
    it. -/
theorem function_names_determine_templates :
    (∀ (s s' : Scope) (f f' : Func ChannelId Expr) (fu fu' : FunctionalUnit),
      (Element.func f).unit? s = some fu → (Element.func f').unit? s' = some fu' →
      fu.name = fu'.name →
        fu.body = fu'.body ∧ fu.argWidths.length = fu'.argWidths.length ∧
        fu.statements.map Statement.unsized = fu'.statements.map Statement.unsized ∧
        fu.outputs.map UnitOutput.unsized = fu'.outputs.map UnitOutput.unsized) ∧
    (∀ (s s' : Scope) (f : Func ChannelId Expr) (funcs : List (Func ChannelId Expr))
      (fu gu : FunctionalUnit), (Element.func f).unit? s = some fu →
      (Element.cluster funcs).unit? s' = some gu → fu.name ≠ gu.name) ∧
    ∀ (ps : Program) (start : Session), start.cache = .empty →
      ∀ t ∈ [endState (lowerAll ps start), endState (attemptAll ps start)],
      ∀ (s : Scope) (f : Func ChannelId Expr) (fu : FunctionalUnit),
        (Element.func f).unit? s = some fu →
        (∀ replacement, .renamed fu.name replacement ∈ t.warnings →
          .renamed fu.name replacement ∈ start.warnings) ∧
        (t.cache.disambiguate fu.name fu.body).1 = fu.name ∧
        (t.cache.disambiguate fu.name fu.body).2.2 = [] := by
  refine ⟨fun s s' f f' fu fu' h h' hname => ?_,
    fun s s' f funcs fu gu h h' => func_name_ne_cluster_name h h',
    fun ps start hfresh t ht s f fu hunit => ?_⟩
  · rcases unit_eq_of_func_name h h' hname with ⟨hargs, hstatements, houtputs⟩
    exact ⟨fu.body_congr fu' hargs hstatements houtputs, hargs, hstatements, houtputs⟩
  · have hstart := namesOwned_start hfresh
    -- Both runs keep names owned, and nothing else is needed of them.
    have howned : t.NamesOwned start.warnings := by
      rcases List.mem_pair.mp ht with rfl | rfl
      · exact keeps_lowerAll ps start hstart
      · exact keeps_attemptAll ps start hstart
    refine ⟨fun replacement hmem => ?_, howned.answer hunit⟩
    -- A new report is about a cluster, which has another name.
    refine (howned.renamed fu.name replacement hmem).resolve_right ?_
    rintro ⟨s', funcs, gu, hgu, hname⟩
    exact func_name_ne_cluster_name hunit hgu hname.symm

/-- Two sums share a name and differ in the widths of their arguments. They are
    lowered with two clusters that also share a name, the second of which is renamed
    and reported, while the process between them fails. -/
theorem function_names_determine_templates_unequal_widths :
    let plus : Func ChannelId Expr := ⟨.binary .add (.var 0) (.var 1), none, some 2⟩
    let twice : Func ChannelId Expr := ⟨.var 0, none, some 2⟩
    let narrow : Scope := ⟨[⟨"a", .int 8, .port .input, 0⟩, ⟨"b", .int 8, .port .input, 1⟩,
      ⟨"x", .int 8, .port .output, 2⟩, ⟨"y", .int 8, .port .output, 3⟩]⟩
    let wide : Scope := ⟨[⟨"a", .int 16, .port .input, 0⟩, ⟨"b", .int 4, .port .input, 1⟩,
      ⟨"x", .int 8, .port .output, 2⟩]⟩
    let both := [twice, ⟨.var 1, none, some 3⟩]
    let one := [twice, ⟨.var 0, none, some 3⟩]
    let ps : Program := [⟨"p", narrow, [.cluster both]⟩, ⟨"q", narrow, [.func plus]⟩,
      ⟨"r", wide, [.func plus, .sink 2]⟩, ⟨"t", narrow, [.cluster one]⟩]
    let start : Session := .start false .empty
    let last := endState (attemptAll ps start)
    ∃ fu fu' gu, (Element.func plus).unit? narrow = some fu ∧
      (Element.func plus).unit? wide = some fu' ∧ (Element.cluster one).unit? narrow = some gu ∧
      fu.name = "func_0add1_8" ∧ fu'.name = fu.name ∧ fu.params ≠ fu'.params ∧
      fu.body = fu'.body ∧ fu.name ≠ gu.name ∧
      .renamed gu.name (gu.name ++ "_h77050375fd71cac2") ∈ last.warnings ∧
      (∀ replacement, .renamed fu.name replacement ∉ last.warnings) ∧
      (last.cache.disambiguate fu'.name fu'.body).1 = fu.name := by
  intro plus twice narrow wide both one ps start last
  have hnarrow : ∃ fu, (Element.func plus).unit? narrow = some fu ∧ fu.name = "func_0add1_8" ∧
      fu.params = [8, 8, 8, 8] := ⟨_, rfl, by decide +kernel, rfl⟩
  have hwide : ∃ fu, (Element.func plus).unit? wide = some fu ∧ fu.name = "func_0add1_8" ∧
      fu.params = [16, 4, 8, 8] := ⟨_, rfl, by decide +kernel, rfl⟩
  have hone : ∃ gu, (Element.cluster one).unit? narrow = some gu ∧
      .renamed gu.name (gu.name ++ "_h77050375fd71cac2") ∈ last.warnings :=
    ⟨_, rfl, by decide +kernel⟩
  rcases hnarrow with ⟨fu, hfu, hname, hparams⟩
  rcases hwide with ⟨fu', hfu', hname', hparams'⟩
  rcases hone with ⟨gu, hgu, hrenamed⟩
  rcases function_names_determine_templates with ⟨hbodies, hclusters, hruns⟩
  have hsame := hname'.trans hname.symm
  have hmem : last ∈ [endState (lowerAll ps start), last] := List.mem_cons_of_mem _ (by simp)
  refine ⟨fu, fu', gu, hfu, hfu', hgu, hname, hsame, ?_,
    (hbodies narrow wide plus plus fu fu' hfu hfu' hsame.symm).1,
    hclusters narrow narrow plus one fu gu hfu hgu, hrenamed, fun replacement hreport => ?_, ?_⟩
  · rw [hparams, hparams']
    decide
  · cases (hruns ps start rfl last hmem narrow plus fu hfu).1 replacement hreport
  · exact (hruns ps start rfl last hmem wide plus fu' hfu').2.1.trans hsame

end Runs

end DataflowCircuit
