import DataflowCircuit.Compile.Run
import DataflowCircuit.Proofs.Cost.Replay

/-!
# Keeping What Was Learned

A run enters what it learns into its table and appends it to the custom file,
one record at a time. This file says what is left of that at the end: a list of
records that lead from the first table to the last one, and that stand in the
file in order. A later run starts from the first table, reads the file and
enters its records, so it has the last table before it lowers anything.

Three things could go wrong on the way and do not. A record is stored under its
normalized key, so entering it again has to normalize a key that is normalized
already. A record that replaced another one would be reported, so no key may be
recorded twice. And if nothing was learned the file was never created, so the
later run must not look for it.

## Main definitions

* `Recorded`: The records that a run made.
* `Files.HoldsRecords`: A custom file from which records are loaded.
* `Files.Spares`: A change of files that leaves the file of a path alone.

## Theorems

* `recorded_lowerAll`: A run that lowers a program makes records of what it
  learned.
* `Files.holdsRecords_appendRecords`: Records that were appended to no file are
  in the file.
* `loadAllMetrics_again`: Metrics are loaded again from files that are read as
  before.
* `prepareSession_again`: A session that is set up with the records has the last
  table.
-/

namespace DataflowCircuit

section Tables

/-- A normalized key is normalized already. -/
theorem normalizeKey_normalizeKey (key : String) :
    normalizeKey (normalizeKey key) = normalizeKey key := by
  -- No character that is written for another one is replaced itself.
  have hchar : ∀ c, normalizeKeyChar (normalizeKeyChar c) = normalizeKeyChar c := by
    intro c
    unfold normalizeKeyChar
    split
    · rfl
    · rfl
  unfold normalizeKey
  rw [String.toList_ofList, List.map_map]
  exact congrArg String.ofList (List.map_congr_left fun c _ => hchar c)

namespace MetricsTable

/-- A record under a normalized key that has no entry is entered as it is. -/
theorem insert_new (t : MetricsTable) (key : String) (cost : Cost) (h : t.lookup key = none) :
    t.insert (normalizeKey key) cost = (put (normalizeKey key) cost t, []) := by
  -- A lookup normalizes its key, so both spellings have no entry.
  have hlook : t.lookup (normalizeKey key) = none := by
    unfold lookup at h ⊢
    rw [normalizeKey_normalizeKey]
    exact h
  unfold insert
  rw [hlook, normalizeKey_normalizeKey]

/-- Records are entered in two parts. -/
theorem insertAll_append (t : MetricsTable) (rs rs' : List (String × Cost)) :
    t.insertAll (rs ++ rs') = (((t.insertAll rs).1.insertAll rs').1,
      (t.insertAll rs).2 ++ ((t.insertAll rs).1.insertAll rs').2) := by
  induction rs generalizing t with
  | nil => rfl
  | cons r rs ih =>
      simp only [List.cons_append, insertAll]
      rw [ih, List.append_assoc]

end MetricsTable

end Tables

section Recording

/-- Records are appended in two parts. -/
theorem Files.appendRecords_append (fs fs' fs'' : Files) (path : String)
    (rs rs' : List (String × Cost)) (h : fs.appendRecords path rs = .ok fs')
    (h' : fs'.appendRecords path rs' = .ok fs'') :
    fs.appendRecords path (rs ++ rs') = .ok fs'' := by
  induction rs generalizing fs with
  | nil =>
      cases h
      exact h'
  | cons r rs ih =>
      rcases except_bind_ok_iff.mp h with ⟨fs₁, happend, hrest⟩
      exact except_bind_ok_iff.mpr ⟨fs₁, happend, ih fs₁ hrest⟩

/-- The records that a run with a custom file made: they lead from its first
    table to its last one without a warning, and they were appended to the
    file. -/
structure Recorded (path : String) (rs : List (String × Cost)) (s s' : Session) : Prop where
  custom : s'.custom = s.custom
  estimator : s'.estimator = s.estimator
  table : s.metrics.insertAll rs = (s'.metrics, [])
  file : s.files.appendRecords path rs = .ok s'.files
  storable : ∀ r ∈ rs, Storable r

/-- Nothing was learned. -/
theorem Recorded.of_pricing_eq {s s' : Session} (path : String) (h : s'.pricing = s.pricing) :
    Recorded path [] s s' := by
  refine ⟨congrArg Pricing.custom h, congrArg Pricing.estimator h, ?_, ?_,
    fun r hr => absurd hr List.not_mem_nil⟩
  · rw [show s'.metrics = s.metrics from congrArg Pricing.metrics h]
    rfl
  · rw [show s'.files = s.files from congrArg Pricing.files h]
    rfl

/-- What was recorded in two parts is recorded at once. -/
theorem Recorded.trans {path : String} {rs rs' : List (String × Cost)} {s t u : Session}
    (h : Recorded path rs s t) (h' : Recorded path rs' t u) : Recorded path (rs ++ rs') s u := by
  refine ⟨h'.custom.trans h.custom, h'.estimator.trans h.estimator, ?_,
    Files.appendRecords_append _ _ _ path rs rs' h.file h'.file, fun r hr => ?_⟩
  · rw [MetricsTable.insertAll_append, h.table, h'.table]
    rfl
  · rcases List.mem_append.mp hr with hr | hr
    · exact h.storable r hr
    · exact h'.storable r hr

/-- A question makes at most one record. -/
theorem Component.recorded_ask (c : Component) (hc : c.Possible) (cost : Option Cost)
    (path : String) (s s' : Session) (hcustom : s.custom = some path) (hest : s.estimator ≠ none)
    (h : c.ask s = .ok cost s') : ∃ rs, Recorded path rs s s' := by
  cases c with
  | unit fu =>
      rcases Lowering.unitCost_estimated fu fu.graph cost s s' hest h with
        ⟨_, _, rfl⟩ | ⟨habsent, _, c, _, hestimated⟩
      · exact ⟨[], .of_pricing_eq path rfl⟩
      · -- Only an estimate changes the table, and it is the record that is appended.
        refine ⟨[(normalizeKey fu.key, c)], ?_⟩
        have happend := hestimated.kept path hcustom
        rcases hestimated.frame with ⟨requests, files, rfl⟩
        refine ⟨rfl, rfl, ?_, ?_, ?_⟩
        · simp only [MetricsTable.insertAll, MetricsTable.insert_new s.metrics fu.key c habsent]
          rfl
        · exact except_bind_ok_iff.mpr ⟨files, happend, rfl⟩
        · rw [List.forall_mem_singleton]
          exact ⟨⟨.unit fu, hc, rfl⟩, hestimated.inSigned64⟩
  | source value width =>
      rcases bind_ok_iff.mp h with ⟨c, t, hask, hpure⟩
      rcases pure_ok_iff.mp hpure with ⟨_, rfl⟩
      rw [(sourceCost_ok value width c s t hask).2]
      exact ⟨[], .of_pricing_eq path rfl⟩
  | _ =>
      rcases bind_ok_iff.mp h with ⟨c, t, hask, hpure⟩
      rcases pure_ok_iff.mp hpure with ⟨_, rfl⟩
      rw [(requireCost_ok _ c s t hask).2]
      exact ⟨[], .of_pricing_eq path rfl⟩

/-- So does every run of questions, in order. -/
theorem Asked.recorded {s s' : Session} {sites : List (Component × Option Cost)} (path : String)
    (h : Asked s sites s') (hcustom : s.custom = some path) (hest : s.estimator ≠ none)
    (hsites : ∀ site ∈ sites, site.1.Possible) : ∃ rs, Recorded path rs s s' := by
  induction h with
  | done s s' hsame => exact ⟨[], .of_pricing_eq path hsame⟩
  | ask s t t' s' c cost rest hsame hask hrest ih =>
      rw [List.forall_mem_cons] at hsites
      have hstart : Recorded path [] s t := .of_pricing_eq path hsame
      -- The custom file and the estimator stay in place from question to question.
      rcases c.recorded_ask hsites.1 cost path t t' (hstart.custom.trans hcustom)
        (by rw [hstart.estimator]; exact hest) hask with ⟨rs, hrs⟩
      have hfirst := hstart.trans hrs
      rcases ih (hfirst.custom.trans hcustom) (by rw [hfirst.estimator]; exact hest) hsites.2 with
        ⟨rs', hrs'⟩
      exact ⟨_, hfirst.trans hrs'⟩

/-- A run that lowers a program makes records of what it learned. -/
theorem recorded_lowerAll (ps : Program) (path : String) (s s' : Session)
    (outs : List LoweredProcess) (hcustom : s.custom = some path) (hest : s.estimator ≠ none)
    (h : lowerAll ps s = .ok outs s') : ∃ rs, Recorded path rs s s' := by
  rcases lowerAll_emits ps s s' outs h with ⟨calls, hcalls, hcomponents⟩
  refine hcalls.session.asked.recorded path hcustom hest fun site hsite => ?_
  rcases List.mem_map.mp hsite with ⟨call, hcall, rfl⟩
  -- What was registered are the components of the program, and these are possible.
  have hcomponent : call.component ∈ calls.map Call.component := List.mem_map_of_mem hcall
  rw [hcomponents _ (Bodies.Keeps.refl _)] at hcomponent
  rcases List.mem_flatMap.mp hcomponent with ⟨p, _, hp⟩
  exact possible_of_mem_components p _ _ _ hp

end Recording

namespace Files

/-- A change of files that keeps the directories and leaves the file of a path
    alone. -/
structure Spares (fs fs' : Files) (path : String) : Prop where
  tree : SameTree fs fs'
  contents : ∀ p, fs.place? path = some p → fs'.entries.lookup p = fs.entries.lookup p

variable {fs fs' fs'' : Files} {path : String}

/-- What two changes spare, both together spare. -/
theorem Spares.trans (h : Spares fs fs' path) (h' : Spares fs' fs'' path) :
    Spares fs fs'' path := by
  refine ⟨h.tree.trans h'.tree, fun p hp => ?_⟩
  rw [h'.contents p ((h.tree.place?_eq path).trans hp), h.contents p hp]

/-- A file that is spared is read as before. -/
theorem Spares.read_ok (h : Spares fs fs' path) (c : Contents) (hread : fs.read path = .ok c) :
    fs'.read path = .ok c := by
  rcases (read_ok_iff fs path c).mp hread with ⟨p, hp, hlook⟩
  exact (read_ok_iff fs' path c).mpr
    ⟨p, (h.tree.place?_eq path).trans hp, (h.contents p hp).trans hlook⟩

/-- A path at which there is nothing stays so. -/
theorem Spares.contains_eq_false (h : Spares fs fs' path) (habsent : fs.contains path = false) :
    fs'.contains path = false := by
  rcases (contains_eq_false_iff fs path).mp habsent with ⟨hnone, hdir⟩
  refine (contains_eq_false_iff fs' path).mpr ⟨fun p hp => ?_, fun p slash hlocate => ?_⟩
  -- The path leads where it led before, and what is there did not change.
  · rw [h.tree.place?_eq] at hp
    rw [h.contents p hp]
    exact hnone p hp
  · rw [h.tree.locate_iff] at hlocate
    rw [h.tree p]
    exact hdir p slash hlocate

/-- What is read is there. -/
theorem contains_of_read_ok (c : Contents) (h : fs.read path = .ok c) :
    fs.contains path = true := by
  rcases (read_ok_iff fs path c).mp h with ⟨p, hp⟩
  unfold contains
  rw [(find_ok_iff fs path p c).mpr hp]

/-- Setting the contents of another file spares the file of a path. -/
theorem spares_set (other : String) (p : Place) (c : Contents) (hother : fs.place? other = some p)
    (hne : fs.place? path ≠ some p) : Spares fs (fs.set p c) path := by
  refine ⟨sameTree_set (reached_of_place? hother) c, fun q hq => ?_⟩
  rw [lookup_set, if_neg]
  rintro rfl
  exact hne hq

/-- A custom file from which the records `rs` are loaded. No records are loaded
    from a file that does not exist. -/
def HoldsRecords (fs : Files) (path : String) (rs : List (String × Cost)) : Prop :=
  fs.contains path = false ∧ rs = [] ∨ fs.contains path = true ∧ loadRecords fs path = .ok rs

/-- A file that is spared holds the records that it held. -/
theorem Spares.holdsRecords {rs : List (String × Cost)} (h : Spares fs fs' path)
    (hrs : fs.HoldsRecords path rs) : fs'.HoldsRecords path rs := by
  rcases hrs with ⟨habsent, hnil⟩ | ⟨_, hload⟩
  · exact Or.inl ⟨h.contains_eq_false habsent, hnil⟩
  · unfold loadRecords at hload
    cases hread : fs.read path with
    | error fault =>
        rw [hread] at hload
        cases hload
    | ok c =>
        rw [hread] at hload
        have hread' := h.read_ok c hread
        refine Or.inr ⟨contains_of_read_ok c hread', ?_⟩
        unfold loadRecords
        rw [hread']
        exact hload

/-- Records that are appended where there is no file are in the file. The
    directories are the same, and every file that exists is spared. -/
theorem holdsRecords_appendRecords (rs : List (String × Cost)) (hrs : ∀ r ∈ rs, Storable r)
    (habsent : fs.contains path = false) (h : fs.appendRecords path rs = .ok fs') :
    SameTree fs fs' ∧ fs'.HoldsRecords path rs ∧
      ∀ other c, fs.read other = .ok c → Spares fs fs' other := by
  cases rs with
  | nil =>
      cases h
      exact ⟨.refl fs, Or.inl ⟨habsent, rfl⟩, fun _ _ _ => ⟨.refl fs, fun _ _ => rfl⟩⟩
  | cons r rs =>
      -- A record was written, so the path leads somewhere.
      have hplace : ∃ p, fs.place? path = some p := by
        rcases except_bind_ok_iff.mp h with ⟨fs₁, happend, _⟩
        rcases (append_ok_iff _ _ _ _).mp happend with ⟨p, hp, _⟩
        exact ⟨p, hp⟩
      rcases hplace with ⟨p, hp⟩
      -- The first record creates the file, so there is nothing before the records.
      have hnone := ((contains_eq_false_iff fs path).mp habsent).1 p hp
      rw [appendRecords_eq fs path p (r :: rs) hp (List.cons_ne_nil _ _), hnone] at h
      cases h
      refine ⟨sameTree_set (reached_of_place? hp) _,
        Or.inr ⟨contains_of_read_ok _ (read_set hp _), ?_⟩, fun other c hread => ?_⟩
      · have htext : Contents.append ((none : Option Contents).getD (.text ""))
            (recordLines (r :: rs)) = .text (recordLines (r :: rs)) := by
          simp [Contents.append]
        unfold loadRecords
        rw [read_set hp, htext]
        exact readRecords_recordLines path 1 (r :: rs) hrs
      · -- The other file exists, so it is not the one that is created.
        rcases (read_ok_iff fs other c).mp hread with ⟨q, hq, hlook⟩
        refine spares_set path p _ hp fun heq => ?_
        rw [hq, Option.some.injEq] at heq
        rw [heq, hnone] at hlook
        cases hlook

end Files

section Loading

/-- Loading a file enters its records. -/
theorem loadMetrics_ok_iff (path : String) (n : Nat) (s s' : Session) :
    Session.loadMetrics path s = .ok n s' ↔ ∃ records, loadRecords s.files path = .ok records ∧
      records.length = n ∧ { s with
        metrics := (s.metrics.insertAll records).1
        warnings := s.warnings ++ (s.metrics.insertAll records).2 } = s' := by
  constructor
  · intro h
    rcases bind_ok_iff.mp h with ⟨s₀, s₁, hget, h⟩
    rcases get_ok_iff.mp hget with ⟨rfl, rfl⟩
    rcases bind_ok_iff.mp h with ⟨records, s₂, hload, h⟩
    rcases lift_ok _ _ _ _ hload with ⟨hrecords, rfl⟩
    rcases bind_ok_iff.mp h with ⟨_, s₃, htable, h⟩
    rcases bind_ok_iff.mp h with ⟨_, s₄, hwarn, h⟩
    rcases pure_ok_iff.mp h with ⟨hn, rfl⟩
    have hs₃ := modify_ok_iff.mp htable
    have hs₄ := modify_ok_iff.mp hwarn
    rw [← hs₃] at hs₄
    exact ⟨records, hrecords, hn, hs₄⟩
  · rintro ⟨records, hload, rfl, rfl⟩
    refine bind_ok_iff.mpr ⟨s, s, rfl, ?_⟩
    rw [hload]
    rfl

/-- Loading changes the table and may warn. -/
theorem loadAllMetrics_frame (paths : List String) (s s' : Session)
    (h : loadAllMetrics paths s = .ok () s') :
    s' = { s with metrics := s'.metrics, warnings := s'.warnings } := by
  induction paths generalizing s with
  | nil =>
      rcases pure_ok_iff.mp h with ⟨_, rfl⟩
      rfl
  | cons path paths ih =>
      rcases bind_ok_iff.mp h with ⟨n, t, hload, hrest⟩
      rcases (loadMetrics_ok_iff _ _ _ _).mp hload with ⟨records, _, _, rfl⟩
      have hframe := ih _ hrest
      exact hframe

/-- Metrics are loaded again from files that are read as before. -/
theorem loadAllMetrics_again (paths : List String) (s s' : Session) (fs : Files)
    (h : loadAllMetrics paths s = .ok () s')
    (hsame : ∀ path ∈ paths, ∀ c, s.files.read path = .ok c → fs.read path = .ok c) :
    loadAllMetrics paths { s with files := fs } = .ok () { s' with files := fs } := by
  induction paths generalizing s with
  | nil =>
      rcases pure_ok_iff.mp h with ⟨_, rfl⟩
      rfl
  | cons path paths ih =>
      rw [List.forall_mem_cons] at hsame
      rcases bind_ok_iff.mp h with ⟨n, t, hload, hrest⟩
      rcases (loadMetrics_ok_iff _ _ _ _).mp hload with ⟨records, hrecords, hn, rfl⟩
      -- The file is read as before, so it has the same records.
      have hrecords' : loadRecords fs path = .ok records := by
        unfold loadRecords at hrecords ⊢
        cases hread : s.files.read path with
        | error fault =>
            rw [hread] at hrecords
            cases hrecords
        | ok c =>
            rw [hread] at hrecords
            rw [hsame.1 c hread]
            exact hrecords
      refine bind_ok_iff.mpr ⟨n, _, ?_, ih _ hrest hsame.2⟩
      exact (loadMetrics_ok_iff _ _ _ _).mpr ⟨records, hrecords', hn, rfl⟩

/-- A custom file with records that are new enters them. -/
theorem useCustomFile_eq (path : String) (rs : List (String × Cost)) (table : MetricsTable)
    (s : Session) (hrs : s.files.HoldsRecords path rs)
    (htable : s.metrics.insertAll rs = (table, [])) :
    Session.useCustomFile path s
      = .ok () { s with metrics := table, custom := some path } := by
  refine bind_ok_iff.mpr ⟨s, s, rfl, ?_⟩
  -- Either there is no file and no record, or the file is loaded.
  rcases hrs with ⟨habsent, rfl⟩ | ⟨hexists, hload⟩
  · simp only [habsent, Bool.false_eq_true, if_false]
    rw [← (Prod.mk.inj htable).1]
    rfl
  · simp only [hexists, if_true]
    refine bind_ok_iff.mpr ⟨rs.length, { s with metrics := table }, ?_, rfl⟩
    refine (loadMetrics_ok_iff _ _ _ _).mpr ⟨rs, hload, rfl, ?_⟩
    rw [htable, List.append_nil]

/-- A session that starts without a custom file and with an estimator. -/
theorem prepareSession_first (programs : Programs) (o : Options) (custom command : String)
    (s s' : Session) (hcustom : o.customMetrics = some custom)
    (hestimator : o.estimator = some command)
    (h : prepareSession programs o s = .ok () s')
    (habsent : ∀ t, loadAllMetrics o.metrics s = .ok () t → t.files.contains custom = false) :
    ∃ t est, loadAllMetrics o.metrics s = .ok () t ∧
      s' = { t with custom := some custom, estimator := some est } := by
  rcases bind_ok_iff.mp h with ⟨_, t, hload, h⟩
  rw [hcustom, hestimator] at h
  rcases bind_ok_iff.mp h with ⟨_, u, huse, h⟩
  -- Nothing is loaded from a custom file that does not exist.
  rw [useCustomFile_eq custom [] t.metrics t (Or.inl ⟨habsent t hload, rfl⟩) rfl] at huse
  cases huse
  rcases bind_ok_iff.mp h with ⟨est, v, hest, h⟩
  rcases lift_ok _ _ _ _ hest with ⟨_, rfl⟩
  exact ⟨t, est, hload, (modify_ok_iff.mp h).symm⟩

/-- A session that starts with a custom file and without an estimator has the
    table that the records lead to. -/
theorem prepareSession_again (programs : Programs) (o : Options) (custom : String)
    (rs : List (String × Cost)) (table : MetricsTable) (s t : Session)
    (hcustom : o.customMetrics = some custom) (hestimator : o.estimator = none)
    (hload : loadAllMetrics o.metrics s = .ok () t) (hrs : t.files.HoldsRecords custom rs)
    (htable : t.metrics.insertAll rs = (table, [])) :
    prepareSession programs o s
      = .ok () { t with metrics := table, custom := some custom } := by
  refine bind_ok_iff.mpr ⟨(), t, hload, ?_⟩
  rw [hcustom, hestimator]
  exact bind_ok_iff.mpr ⟨(), _, useCustomFile_eq custom rs table t hrs htable, rfl⟩

end Loading

end DataflowCircuit
