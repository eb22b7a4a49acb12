import DataflowCircuit.Proofs.Lowering.Cursors
import DataflowCircuit.Proofs.Lowering.Safety
import DataflowCircuit.Proofs.Source.RoundTrip

/-!
# Consistency of Resolved Processes

No process that was read and resolved makes lowering stop with a
contradiction, whatever the session it is lowered in.

Four passes have to fit together for that. Declaring and connecting channels
gives every wire a root, resolving makes every reference a root, counting walks
over the elements, and lowering walks over them again and asks for what was
counted. `Ready` is the invariant of the second walk. It says that the plan has
a supply for every read of the process, and that the reads served so far are the
first ones of the list that was counted. Every element finds its own reads next
in that list, and leaves the plan ready for the elements behind it.

## Main definitions

* `Element.references`: The channels that an element mentions.
* `CopyPlan.Ready`: A plan that can serve the rest of the reads.
* `Process.Consistent`: Everything that lowering checks holds.

## Theorems

* `isRoot_of_mem_references`: Resolved elements mention roots only.
* `CopyPlan.ready_serves`: A ready plan serves the reads that are next.
* `Lowering.safe_lowerElement`: An element whose reads are next is safe.
* `Lowering.safe_lowerElements`: So are elements in order.
* `consistent_of_resolved`: Elements over roots make a process consistent.
* `resolved_processes_are_consistent`: Processes that were read and resolved.
-/

namespace DataflowCircuit

section References

/-- The channels of an expression are added to those that are there. -/
theorem Expr.mem_addReads (e : Expr) (refs : List ChannelId) (id : ChannelId) :
    id ∈ e.addReads refs ↔ id ∈ refs ∨ id ∈ e.addReads [] := by
  induction e generalizing refs with
  | const v => simp [addReads]
  | var c =>
      unfold addReads addRead
      -- A channel that is there already is not added again.
      by_cases hc : c ∈ refs
      · rw [if_pos hc]
        simp only [List.not_mem_nil, if_false, List.nil_append, List.mem_singleton]
        refine ⟨Or.inl, fun h => ?_⟩
        rcases h with h | rfl
        · exact h
        · exact hc
      · simp [hc]
  | binary op lhs rhs ihl ihr =>
      rw [addReads, addReads, ihr, ihl, ihr (lhs.addReads []), or_assoc]
  | unary op arg ih => exact ih refs
  | query c t e ihc iht ihe =>
      rw [addReads, addReads, ihe, iht, ihc, ihe (t.addReads (c.addReads [])),
        iht (c.addReads []), or_assoc, or_assoc, or_assoc]
  | cast arg w ih => exact ih refs

/-- The channels of a resolved expression are roots. -/
theorem Expr.isRoot_of_mem_addReads (s : Scope) (e : Expr) (he : e.Resolved s) (id : ChannelId)
    (h : id ∈ e.addReads []) : s.IsRoot id := by
  induction e with
  | const v => cases h
  | var c =>
      have hid : id = c := by simpa [addReads, addRead] using h
      rw [hid]
      exact he
  | binary op lhs rhs ihl ihr =>
      rcases (rhs.mem_addReads _ id).mp h with h | h
      · exact ihl he.1 h
      · exact ihr he.2 h
  | unary op arg ih => exact ih he h
  | query c t e ihc iht ihe =>
      rcases (e.mem_addReads _ id).mp h with h | h
      · rcases (t.mem_addReads _ id).mp h with h | h
        · exact ihc he.1 h
        · exact iht he.2.1 h
      · exact ihe he.2.2 h
  | cast arg w ih => exact ih he.1 h

/-- A list of functions reads what one of them reads. -/
theorem mem_readsOfFuncs (funcs : List (Func ChannelId Expr)) (id : ChannelId) :
    id ∈ readsOfFuncs funcs ↔ ∃ f ∈ funcs, id ∈ f.expr.addReads [] := by
  have hfold : ∀ (fs : List (Func ChannelId Expr)) (refs : List ChannelId),
      id ∈ fs.foldl (fun refs f => f.expr.addReads refs) refs ↔
        id ∈ refs ∨ ∃ f ∈ fs, id ∈ f.expr.addReads [] := by
    intro fs
    induction fs with
    | nil => simp
    | cons f fs ih =>
        intro refs
        rw [List.foldl_cons, ih, Expr.mem_addReads, List.exists_mem_cons_iff, or_assoc]
  have hall := hfold funcs []
  rw [List.mem_nil_iff, false_or] at hall
  exact hall

/-- The channels that a function mentions: in its expression, in its initial
    token and as its output. -/
def Func.references (f : Func ChannelId Expr) : List ChannelId :=
  f.expr.addReads [] ++ ((f.buffer.bind Buffer.init).elim [] (Expr.addReads [])) ++ f.output.toList

/-- The channels that an element mentions. -/
def Element.references : Element ChannelId Expr → List ChannelId
  | .func f => f.references
  | .cluster funcs => funcs.flatMap Func.references
  | .split guard input outputs => guard :: input :: outputs.filterMap id
  | .merge guard inputs out => guard :: out :: inputs
  | .mixer inputs out => out :: inputs
  | .arbiter inputs out ctrl => out :: ctrl :: inputs
  | .sink input => [input]

/-- What an element reads, it mentions. -/
theorem Element.reads_subset_references (el : Element ChannelId Expr) :
    ∀ id ∈ el.reads, id ∈ el.references := by
  intro id h
  cases el with
  | func f =>
      rcases (mem_readsOfFuncs [f] id).mp h with ⟨g, hg, hid⟩
      rw [List.mem_singleton.mp hg] at hid
      exact List.mem_append_left _ (List.mem_append_left _ hid)
  | cluster funcs =>
      rcases (mem_readsOfFuncs funcs id).mp h with ⟨g, hg, hid⟩
      exact List.mem_flatMap.mpr
        ⟨g, hg, List.mem_append_left _ (List.mem_append_left _ hid)⟩
  | split guard input outputs =>
      simp only [reads, references, List.mem_cons, List.not_mem_nil, or_false] at h ⊢
      tauto
  | merge guard inputs out =>
      simp only [reads, references, List.mem_cons] at h ⊢
      tauto
  | mixer inputs out => exact List.mem_cons_of_mem _ h
  | arbiter inputs out ctrl => exact List.mem_cons_of_mem _ (List.mem_cons_of_mem _ h)
  | sink input => exact h

/-- The channels of a resolved function are roots. -/
theorem isRoot_of_mem_func (s : Scope) (f : Func ChannelId Expr)
    (hf : f.WellFormed s.IsRoot (Expr.Resolved s)) : ∀ id ∈ f.references, s.IsRoot id := by
  intro id h
  rcases List.mem_append.mp h with h | h
  · rcases List.mem_append.mp h with h | h
    · exact f.expr.isRoot_of_mem_addReads s hf.expr id h
    -- The initial token may be missing, and is resolved like the expression if it is there.
    · cases hinit : f.buffer.bind Buffer.init with
      | none =>
          rw [hinit] at h
          cases h
      | some token =>
          rw [hinit] at h
          rcases Option.bind_eq_some_iff.mp hinit with ⟨b, hb, htoken⟩
          exact token.isRoot_of_mem_addReads s (hf.init b hb token htoken) id h
  · exact hf.output id (Option.mem_toList.mp h)

/-- The channels of a resolved element are roots. -/
theorem isRoot_of_mem_references (s : Scope) (el : Element ChannelId Expr)
    (hel : Source.Resolved s el) : ∀ id ∈ el.references, s.IsRoot id := by
  intro id h
  cases el with
  | func f => exact isRoot_of_mem_func s f hel.1 id h
  | cluster funcs =>
      rcases List.mem_flatMap.mp h with ⟨f, hf, hid⟩
      exact isRoot_of_mem_func s f (hel f hf).1 id hid
  | split guard input outputs =>
      rcases hel with ⟨hguard, hinput, houts, _⟩
      rcases List.mem_cons.mp h with rfl | h
      · exact hguard
      · rcases List.mem_cons.mp h with rfl | h
        · exact hinput
        · rcases List.mem_filterMap.mp h with ⟨o, ho, hid⟩
          exact houts o ho id hid
  | merge guard inputs out =>
      rcases hel with ⟨hguard, hinputs, hout, _⟩
      rcases List.mem_cons.mp h with rfl | h
      · exact hguard
      · rcases List.mem_cons.mp h with rfl | h
        · exact hout
        · exact hinputs id h
  | mixer inputs out =>
      rcases hel with ⟨hinputs, hout, _⟩
      rcases List.mem_cons.mp h with rfl | h
      · exact hout
      · exact hinputs id h
  | arbiter inputs out ctrl =>
      rcases hel with ⟨hinputs, hout, hctrl, _⟩
      rcases List.mem_cons.mp h with rfl | h
      · exact hout
      · rcases List.mem_cons.mp h with rfl | h
        · exact hctrl
        · exact hinputs id h
  | sink input =>
      rw [List.mem_singleton.mp h]
      exact hel

end References

section Ready

/-- A plan for `reads` that can serve all of them after the first `served`. -/
structure CopyPlan.Ready (s : Scope) (reads served : List ChannelId) (p : CopyPlan) : Prop where
  tracks : p.Tracks s reads served
  supplied : ∀ id ∈ reads, ∃ sup, p.supply? id = some sup

/-- Serving keeps the supplies. -/
theorem CopyPlan.supply?_serve_isSome (p : CopyPlan) (id c : ChannelId) (sup : Supply)
    (h : p.supply? c = some sup) : ∃ sup', (p.serve id).supply? c = some sup' := by
  have hfind : ∃ x ∈ (p.serve id).supplies, decide (x.channel = c) = true := by
    rcases supply?_mem p c sup h with ⟨hmem, hc⟩
    refine ⟨_, List.mem_map_of_mem hmem, ?_⟩
    by_cases hid : sup.channel = id
    · simp only [if_pos hid]
      exact decide_eq_true hc
    · simp only [if_neg hid]
      exact decide_eq_true hc
  exact Option.isSome_iff_exists.mp (List.find?_isSome.mpr hfind)

/-- A read that was counted more often than served is served, and leaves the
    plan ready. -/
theorem CopyPlan.ready_next (s : Scope) (reads served : List ChannelId) (p : CopyPlan)
    (id : ChannelId) (h : p.Ready s reads served) (hlt : served.count id < reads.count id) :
    ∃ wire q, p.next id = .ok (wire, q) := by
  have hmem : id ∈ reads := List.count_pos_iff.mp (by omega)
  rcases h.supplied id hmem with ⟨sup, hsup⟩
  rcases h.tracks id sup hsup with ⟨_, hreads, hserved⟩
  refine ⟨sup.wire sup.served, p.serve id, ?_⟩
  unfold CopyPlan.next
  rw [hsup]
  simp only [hreads, hserved, if_pos hlt]

/-- A plan is ready for the reads behind the one that it served. -/
theorem CopyPlan.ready_after (s : Scope) (reads served : List ChannelId) (p q : CopyPlan)
    (id : ChannelId) (wire : String) (h : p.Ready s reads served)
    (hnext : p.next id = .ok (wire, q)) : q.Ready s reads (served ++ [id]) := by
  refine ⟨(next_wire s reads served p q id wire h.tracks hnext).2, fun c hc => ?_⟩
  rcases h.supplied c hc with ⟨sup, hsup⟩
  unfold CopyPlan.next at hnext
  -- Only an answer that is a wire moves a cursor.
  split at hnext
  · cases hnext
  · split at hnext
    · cases hnext
      exact p.supply?_serve_isSome id c sup hsup
    · cases hnext

/-- What was served one by one leaves the plan ready for the rest. -/
theorem CopyPlan.ready_of_serves (s : Scope) (reads : List ChannelId)
    (wires : List (ChannelId × String)) (served : List ChannelId) (p q : CopyPlan)
    (h : p.Ready s reads served) (hserves : p.Serves wires q) :
    q.Ready s reads (served ++ wires.map Prod.fst) := by
  induction wires generalizing served p with
  | nil =>
      have hq : q = p := hserves
      rw [hq, List.map_nil, List.append_nil]
      exact h
  | cons pair wires ih =>
      rcases pair with ⟨id, wire⟩
      rcases hserves with ⟨p₁, hnext, hrest⟩
      have hready := ih (served ++ [id]) p₁ (ready_after s reads served p p₁ id wire h hnext) hrest
      rw [List.append_assoc] at hready
      exact hready

/-- A ready plan serves the reads that are next. -/
theorem CopyPlan.ready_serves (s : Scope) (reads ids rest served : List ChannelId) (p : CopyPlan)
    (hreads : reads = served ++ (ids ++ rest)) (h : p.Ready s reads served) :
    ∃ wires q, p.Serves wires q ∧ wires.map Prod.fst = ids := by
  induction ids generalizing served p with
  | nil => exact ⟨[], p, rfl, rfl⟩
  | cons id ids ih =>
      -- The read at hand is counted, but is not among those that were served.
      have hlt : served.count id < reads.count id := by
        rw [hreads, List.count_append, List.count_append, List.count_cons_self]
        omega
      rcases ready_next s reads served p id h hlt with ⟨wire, q, hnext⟩
      have hsplit : reads = (served ++ [id]) ++ (ids ++ rest) := by
        rw [hreads, List.append_assoc]
        rfl
      rcases ih (served ++ [id]) q hsplit (ready_after s reads served p q id wire h hnext) with
        ⟨wires, r, hserves, hids⟩
      exact ⟨(id, wire) :: wires, r, ⟨q, hnext, hserves⟩, by rw [List.map_cons, hids]⟩

end Ready

namespace Lowering

/-- Serving reads answers what the plan serves. -/
theorem serveAll_eq (wires : List (ChannelId × String)) (l : Lowering) (q : CopyPlan)
    (h : l.plan.Serves wires q) :
    serveAll (wires.map Prod.fst) l = .ok wires { l with plan := q } := by
  induction wires generalizing l with
  | nil =>
      have hq : q = l.plan := h
      rw [hq]
      rfl
  | cons pair wires ih =>
      rcases pair with ⟨id, wire⟩
      rcases h with ⟨p, hnext, hrest⟩
      -- The first read is answered by the plan that the state carries.
      have hserve : serve id l = .ok wire { l with plan := p } := by
        refine bind_ok_iff.mpr ⟨l, l, rfl, ?_⟩
        rw [hnext]
        rfl
      have htail := ih { l with plan := p } hrest
      refine bind_ok_iff.mpr ⟨wire, _, hserve, ?_⟩
      exact bind_ok_iff.mpr ⟨wires, _, htail, rfl⟩

section Elements

variable (sub : Subject)

/-- An element that starts by being served its reads is safe if the rest is,
    whatever the wires. -/
theorem safeAt_resolveReads {β : Type} (el : Element ChannelId Expr)
    (k : List (ChannelId × String) → Step β) (l : Lowering)
    (hserves : ∃ wires q, l.plan.Serves wires q ∧ wires.map Prod.fst = el.reads)
    (hk : ∀ wires, wires.map Prod.fst = el.reads → Safe (k wires)) :
    SafeAt (resolveReads el >>= k) l := by
  rcases hserves with ⟨wires, q, hserves, hids⟩
  -- Serving the reads cannot fail, and leaves the plan that was served from.
  have hrun : resolveReads el l = .ok wires { l with plan := q } := by
    unfold resolveReads
    rw [← hids]
    exact serveAll_eq wires l q hserves
  refine safeAt_bind ?_ ?_
  · intro e l' h
    rw [hrun] at h
    cases h
  · intro a l' h
    rw [hrun] at h
    cases h
    exact hk wires hids _

/-- The same for the wires alone. -/
theorem safeAt_wires {β : Type} (el : Element ChannelId Expr) (k : List String → Step β)
    (l : Lowering)
    (hserves : ∃ wires q, l.plan.Serves wires q ∧ wires.map Prod.fst = el.reads)
    (hk : ∀ ws, ws.length = el.reads.length → Safe (k ws)) : SafeAt (wires el >>= k) l := by
  have hassoc : (wires el >>= k)
      = resolveReads el >>= fun served => k (served.map Prod.snd) := by
    unfold wires
    rw [bind_assoc]
    rfl
  rw [hassoc]
  refine safeAt_resolveReads el _ l hserves fun served hids => hk _ ?_
  rw [← hids, List.length_map, List.length_map]

/-- A join whose reads are next is safe. -/
theorem safeAt_joinWires (el : Element ChannelId Expr) (template : Template) (key : String)
    (outs : List ChannelId) (l : Lowering)
    (hserves : ∃ wires q, l.plan.Serves wires q ∧ wires.map Prod.fst = el.reads) :
    SafeAt (wires el >>= fun ws => join sub template key ws outs) l :=
  safeAt_wires el _ l hserves fun _ _ => safe_join sub _ _ _ _

/-- A lifted result that is no contradiction leaves the state alone. -/
theorem safeAt_lift {α β : Type} (x : Except Error α) (hx : SafeResult x) (k : α → Step β)
    (l : Lowering) (hk : ∀ a, SafeAt (k a) l) : SafeAt (lift x >>= k) l := by
  refine safeAt_bind (safe_lift x hx l) fun a l' h => ?_
  cases x with
  | error e => exact (throw_ok_iff.mp h).elim
  | ok a' =>
      rcases pure_ok_iff.mp h with ⟨rfl, rfl⟩
      exact hk a'

/-- Asking for the state leaves it alone. -/
theorem safeAt_get {β : Type} (k : Lowering → Step β) (l : Lowering) (hk : SafeAt (k l) l) :
    SafeAt (get >>= k) l := by
  refine safeAt_bind (safe_get l) fun a l' h => ?_
  rcases get_ok_iff.mp h with ⟨rfl, rfl⟩
  exact hk

/-- A function or a cluster whose reads are next is safe: the arguments of its
    unit are the channels that were served. -/
theorem safeAt_lowerFuncs (el : Element ChannelId Expr) (clustered : Bool)
    (funcs : List (Func ChannelId Expr)) (hreads : el.reads = readsOfFuncs funcs)
    (hfs : ∀ f ∈ funcs, f.WellFormed sub.scope.IsRoot (Expr.Resolved sub.scope)) (l : Lowering)
    (hserves : ∃ wires q, l.plan.Serves wires q ∧ wires.map Prod.fst = el.reads) :
    SafeAt (lowerFuncs sub el clustered funcs) l := by
  refine safeAt_resolveReads el _ l hserves fun served hids l₁ => ?_
  refine safeAt_bind (safe_addMembers sub _ clustered 0 funcs .empty hfs l₁) ?_
  intro ms l₂ hgather
  -- That the unit finds its sources rests on its arguments being the channels that were
  -- served.
  rcases gathered_of_addMembers sub _ clustered 0 funcs .empty ms l₁ l₂ hgather with
    ⟨τ, hgathered⟩
  have hargs : served.map Prod.fst = ms.builder.args := by
    rw [hids, hreads]
    exact (gathered_args hgathered).symm
  have hnodup : ms.builder.args.Nodup := by
    rw [← hargs, hids, hreads]
    exact readsOfFuncs_nodup funcs
  by_cases hempty : ms.builder.statements.isEmpty = true
  · simp only [if_pos hempty]
    exact safe_pure () l₂
  · simp only [if_neg hempty]
    exact safe_emitUnit sub served ms hargs hnodup l₂

/-- An element over roots whose reads are next is safe. -/
theorem safe_lowerElement (el : Element ChannelId Expr) (hel : Source.Resolved sub.scope el)
    (l : Lowering)
    (hserves : ∃ wires q, l.plan.Serves wires q ∧ wires.map Prod.fst = el.reads) :
    SafeAt (lowerElement sub el) l := by
  -- Every width that is asked for is that of a root.
  have hwidth : ∀ id ∈ el.references, SafeResult (sub.scope.width id) := fun id hid =>
    safeResult_width sub.scope id (isRoot_of_mem_references sub.scope el hel id hid)
  cases el with
  | func f =>
      refine safeAt_lowerFuncs sub _ false [f] rfl (fun g hg => ?_) l hserves
      rw [List.mem_singleton.mp hg]
      exact hel.1
  | cluster funcs =>
      exact safeAt_lowerFuncs sub _ true funcs rfl (fun f hf => (hel f hf).1) l hserves
  | split guard input outputs =>
      refine safeAt_lift _ (hwidth guard (by simp [Element.references])) _ l fun guardWidth => ?_
      refine safeAt_lift _ (hwidth input (by simp [Element.references])) _ l fun width => ?_
      refine safeAt_get _ l ?_
      refine safeAt_bind (safe_onSession (Session.safe_requireCost _) l) fun cost l₁ hcost => ?_
      -- Looking up a cost leaves the plan alone.
      rcases onSession_ok_iff.mp hcost with ⟨s', _, rfl⟩
      refine safeAt_wires _ _ _ hserves fun ws hlen => ?_
      -- A split is served the wires of its input and of its guard.
      match ws, hlen with
      | [inputWire, guardWire], _ =>
          refine safe_bind (safe_connectOutputs sub _ width outputs) fun outs => ?_
          exact safe_bind (safe_emit _ _ _ _) fun _ => safe_sinkWires width _
  | merge guard inputs out =>
      refine safeAt_lift _ (hwidth guard (by simp [Element.references])) _ l fun guardWidth => ?_
      refine safeAt_lift _ (hwidth out (by simp [Element.references])) _ l fun width => ?_
      refine safeAt_get _ l ?_
      exact safeAt_joinWires sub _ _ _ _ l hserves
  | mixer inputs out =>
      refine safeAt_lift _ (hwidth out (by simp [Element.references])) _ l fun width => ?_
      refine safeAt_get _ l ?_
      exact safeAt_joinWires sub _ _ _ _ l hserves
  | arbiter inputs out ctrl =>
      refine safeAt_lift _ (hwidth out (by simp [Element.references])) _ l fun width => ?_
      refine safeAt_lift _ (hwidth ctrl (by simp [Element.references])) _ l fun ctrlWidth => ?_
      refine safeAt_get _ l ?_
      exact safeAt_joinWires sub _ _ _ _ l hserves
  | sink input =>
      refine safeAt_lift _ (hwidth input (by simp [Element.references])) _ l fun width => ?_
      exact safeAt_wires _ _ l hserves fun ws _ => safe_sinkWires width ws

/-- Elements in order are safe if their reads are next: each leaves the plan
    ready for those behind it. -/
theorem safe_lowerElements (els : List (Element ChannelId Expr))
    (hels : ∀ el ∈ els, Source.Resolved sub.scope el) (reads served : List ChannelId)
    (l : Lowering) (hreads : reads = served ++ els.flatMap Element.reads)
    (hready : l.plan.Ready sub.scope reads served) : SafeAt (lowerElements sub els) l := by
  induction els generalizing served l with
  | nil => exact safe_pure () l
  | cons el els ih =>
      rw [List.flatMap_cons] at hreads
      -- The reads of the first element are next in the list that was counted.
      have hnext := CopyPlan.ready_serves sub.scope reads el.reads _ served l.plan hreads hready
      refine safeAt_bind (safe_lowerElement sub el (hels el List.mem_cons_self) l hnext) ?_
      intro u l' hrun
      -- The trace of a run that went through says what it served: the reads of
      -- the element.
      rcases (walk_lowerElement sub el).of_ok hrun with ⟨τ, htrace, hwritten⟩
      have hready' := CopyPlan.ready_of_serves sub.scope reads τ.served served l.plan l'.plan hready
        hwritten.plan
      rw [htrace.served] at hready'
      refine ih (fun el' h => hels el' (List.mem_cons_of_mem el h)) (served ++ el.reads) l' ?_
        hready'
      rw [hreads, List.append_assoc]

end Elements

end Lowering

section Processes

/-- Counting stops with no contradiction: what can be wrong is the shape of an
    element. -/
theorem safeResult_collect (p : Process) : SafeResult (UseCounts.collect p) := by
  have hfrom : ∀ (els : List (Element ChannelId Expr)) (uses : UseCounts),
      SafeResult (UseCounts.collectFrom p.scope uses els) := by
    intro els
    induction els with
    | nil => exact fun uses => safeResult_ok uses
    | cons el els ih =>
        intro uses
        refine safeResult_bind ?_ fun _ _ => ih _
        unfold Element.check
        -- A shape that is refused is the fault of the input, and no contradiction.
        cases el.shapeFault? with
        | none => exact safeResult_ok ()
        | some fault =>
            intro e h
            cases h
            rfl
  exact hfrom p.elements []

/-- A traversal succeeds if every step does. -/
theorem traverseList_succeeds {α β η : Type} (f : α → Except η β) (xs : List α)
    (h : ∀ x ∈ xs, ∃ y, f x = .ok y) : ∃ ys, traverseList f xs = .ok ys := by
  induction xs with
  | nil => exact ⟨[], rfl⟩
  | cons x xs ih =>
      rcases h x List.mem_cons_self with ⟨y, hy⟩
      rcases ih fun z hz => h z (List.mem_cons_of_mem x hz) with ⟨ys, hys⟩
      exact ⟨y :: ys, by rw [traverseList, hy, hys]; rfl⟩

/-- The arguments that the bodies of members alone determine are their reads. -/
theorem gatherUnit_args (s : Scope) (element : String) (clustered : Bool) (position : Nat)
    (fs : List (Func ChannelId Expr)) (b b' : UnitBuilder) (outs outs' : List UnitOutput)
    (h : Lowering.gatherUnit s element clustered position fs b outs = some (b', outs')) :
    b'.args = fs.foldl (fun refs f => f.expr.addReads refs) b.args := by
  induction fs generalizing position b outs with
  | nil =>
      cases h
      rfl
  | cons f fs ih =>
      rcases Lowering.gatherUnit_cons h with
        ⟨v, hconst, h⟩ | ⟨out, width, result, b₁, _, _, _, hlower, h⟩
      · rw [ih _ b outs h, List.foldl_cons, Expr.addReads_of_const f.expr v _ hconst]
      · rw [ih _ _ _ h, List.foldl_cons]
        rw [Expr.lowerOutput_args s element f.expr width result b b₁ hlower]

/-- Everything that lowering checks of a process holds. -/
structure Process.Consistent (p : Process) : Prop where
  /-- Every channel that an element mentions has a width. -/
  widths : ∀ el ∈ p.elements, ∀ id ∈ el.references, ∃ w, p.scope.width id = .ok w
  /-- Counted reads have a plan, and the plan serves all reads in order. -/
  served : ∀ uses, UseCounts.collect p = .ok uses → ∃ plan, CopyPlan.plan p.scope uses = .ok plan ∧
    ∃ wires plan', plan.Serves wires plan' ∧ wires.map Prod.fst = p.reads
  /-- The arguments of a unit are found among what was served, in order. -/
  arguments : ∀ el ∈ p.elements, ∀ clustered funcs builder outs sources,
    el.members? = some (clustered, funcs) →
    Lowering.gatherUnit p.scope (el.print p.scope) clustered 0 funcs .empty [] =
      some (builder, outs) →
    sources.map Prod.fst = el.reads →
    traverseList (Lowering.sourceOf p.scope sources) builder.args = .ok (sources.map Prod.snd)
  /-- A split is served two wires. -/
  splits : ∀ guard input outputs, Element.split guard input outputs ∈ p.elements →
    (Element.split guard input outputs : Element ChannelId Expr).reads.length = 2
  /-- Lowering stops with no contradiction in any session. -/
  lowers : ∀ s e s', lowerProcess p s = .error e s' → e.isContradiction = false

/-- The counts of a process over roots have a plan that is ready for all its
    reads. -/
theorem plan_ready (p : Process) (hroots : ∀ id ∈ p.reads, p.scope.IsRoot id) (uses : UseCounts)
    (huses : UseCounts.collect p = .ok uses) :
    ∃ plan, CopyPlan.plan p.scope uses = .ok plan ∧ plan.Ready p.scope p.reads [] := by
  have hcounted := collect_counted p uses huses
  have hplan : ∃ plan, CopyPlan.plan p.scope uses = .ok plan := by
    have hall := traverseList_succeeds
      (fun (entry : ChannelId × Nat) => do
        let width ← p.scope.width entry.1
        return (⟨entry.1, p.scope.nameOf entry.1, width, entry.2, 0⟩ : Supply)) uses ?_
    · rcases hall with ⟨sups, hsups⟩
      exact ⟨⟨sups⟩, except_bind_ok_iff.mpr ⟨sups, hsups, rfl⟩⟩
    · intro entry hentry
      -- What has an entry was read, so it is a root and has a width.
      have hid : entry.1 ∈ p.reads := by
        rw [← (foldl_addRead_pairwise p.reads).1, ← hcounted.keys]
        exact List.mem_map_of_mem hentry
      rcases p.scope.width_of_isRoot entry.1 (hroots entry.1 hid) with ⟨w, hw⟩
      exact ⟨_, except_bind_ok_iff.mpr ⟨w, hw, rfl⟩⟩
  rcases hplan with ⟨plan, hplan⟩
  refine ⟨plan, hplan, plan_tracks p.scope p.reads uses plan hcounted.entries
    (plan_supplies p.scope uses plan hplan), fun id hid => ⟨p.supply [] id, ?_⟩⟩
  rw [plan_eq_planAfter p uses plan huses hplan, supply?_planAfter, if_pos hid]

/-- A process whose elements are over roots is consistent. -/
theorem consistent_of_resolved (p : Process)
    (hels : ∀ el ∈ p.elements, Source.Resolved p.scope el) : p.Consistent := by
  have hroots : ∀ id ∈ p.reads, p.scope.IsRoot id := by
    intro id hid
    rcases List.mem_flatMap.mp hid with ⟨el, hel, hid⟩
    exact isRoot_of_mem_references p.scope el (hels el hel) id (el.reads_subset_references id hid)
  refine ⟨?_, ?_, ?_, fun _ _ _ _ => rfl, ?_⟩
  · intro el hel id hid
    exact p.scope.width_of_isRoot id (isRoot_of_mem_references p.scope el (hels el hel) id hid)
  · intro uses huses
    rcases plan_ready p hroots uses huses with ⟨plan, hplan, hready⟩
    rcases CopyPlan.ready_serves p.scope p.reads p.reads [] [] plan (by simp) hready with
      ⟨wires, plan', hserves, hids⟩
    exact ⟨plan, hplan, wires, plan', hserves, hids⟩
  · intro el hel clustered funcs builder outs sources hmembers hgather hids
    have hreads := Element.reads_of_members hmembers
    -- A unit meets its arguments in the order in which they were counted.
    have hargs : builder.args = sources.map Prod.fst := by
      rw [hids, hreads]
      exact gatherUnit_args _ _ _ _ funcs _ builder _ outs hgather
    rw [hargs]
    refine Lowering.traverse_sourceOf p.scope sources ?_
    rw [hids, hreads]
    exact readsOfFuncs_nodup funcs
  · intro s e s' h
    unfold lowerProcess at h
    split at h
    · rename_i e' hcollect
      cases h
      exact safeResult_collect p e hcollect
    · rename_i uses huses
      rcases plan_ready p hroots uses huses with ⟨plan, hplan, hready⟩
      simp only [hplan] at h
      split at h
      · cases h
      · rename_i e' l hrun
        cases h
        refine safeAt_bind (Lowering.safe_lowerCopies _ _) ?_ e l hrun
        intro u l₁ hcopies
        refine Lowering.safe_lowerElements ⟨p, uses⟩ p.elements hels p.reads [] l₁ rfl ?_
        rw [(Lowering.lowerCopies_ok _ _ _ _ hcopies).plan]
        exact hready

/-- Every process of a program that was read and resolved is consistent: the
    channels it mentions have widths, its reads are served in the order in which
    they were counted, the arguments of its units are among what was served, its
    splits are served two wires, and lowering it stops with no contradiction in
    any session. -/
theorem resolved_processes_are_consistent (text : String) (written : Source.Program)
    (program : Program) (hparse : Source.parse text = .ok written)
    (hresolve : written.resolve = .ok program) : ∀ p ∈ program, p.Consistent := by
  intro p hp
  rcases Source.accepted_of_parse text written hparse with ⟨ps, rfl, hps⟩
  rcases Source.exists_rewritten [] ps hps program hresolve with ⟨xs, rfl, hxs, _⟩
  rcases List.mem_map.mp hp with ⟨x, hx, rfl⟩
  rcases hxs x hx with ⟨signature, body, horigin, _⟩
  exact consistent_of_resolved x.1 horigin.elements

/-- A channel that is read twice, once through an alias: by a function, and by a
    split with an unconnected output. -/
def aliasedReads : String :=
  "defproc p(chan?(int<8>)a;chan?(bool)g;chan!(int<8>)x,y)\x7bchan(int<8>)b;b=a;" ++
    "dataflow\x7ba+b->x;\x7bg\x7db->y,*;\x7d\x7d"

/-- Without metrics the process is not lowered, and what stops it is no
    contradiction. -/
theorem aliased_reads_are_consistent :
    ∃ written p e s', Source.parse aliasedReads = .ok written ∧ written.resolve = .ok [p] ∧
      p.reads = [0, 0, 1] ∧ p.Consistent ∧
      lowerProcess p (Session.start false .empty) = .error e s' ∧ e.isContradiction = false := by
  -- Everything is run once, and the results are taken apart below.
  have hrun : ∃ written p e s', Source.parse aliasedReads = .ok written ∧
      written.resolve = .ok [p] ∧ p.reads = [0, 0, 1] ∧
      lowerProcess p (Session.start false .empty) = .error e s' := by
    have hok : (match Source.parse aliasedReads >>= Source.Program.resolve with
        | .ok program => program.map fun p => (p.reads,
            match lowerProcess p (Session.start false .empty) with
            | .ok _ _ => true
            | .error _ _ => false)
        | .error _ => []) = [([0, 0, 1], false)] := by decide +kernel
    generalize Source.parse aliasedReads = parsed at hok
    cases parsed with
    | error e => cases hok
    | ok written =>
        change (match written.resolve with
          | .ok program => program.map _
          | .error _ => []) = _ at hok
        cases hresolve : written.resolve with
        | error e =>
            rw [hresolve] at hok
            cases hok
        | ok program =>
            rw [hresolve] at hok
            rcases List.map_eq_singleton_iff.mp hok with ⟨p, rfl, hp⟩
            rw [Prod.mk.injEq] at hp
            cases hlower : lowerProcess p (Session.start false .empty) with
            | ok out s' =>
                rw [hlower] at hp
                cases hp.2
            | error e s' => exact ⟨written, p, e, s', rfl, hresolve, hp.1, hlower⟩
  rcases hrun with ⟨written, p, e, s', hparse, hresolve, hreads, hlower⟩
  have hp := resolved_processes_are_consistent aliasedReads written [p] hparse hresolve p
    List.mem_cons_self
  exact ⟨written, p, e, s', hparse, hresolve, hreads, hp, hlower, hp.lowers _ e s' hlower⟩

end Processes

end DataflowCircuit
