import DataflowCircuit.Proofs.Lowering.Walk

/-!
# Members of a Unit

A function or a cluster is lowered in two phases. Its members are gathered one
after another, and then the unit is written with everything that was gathered.
What connects the phases is a record of members, so this file says what
gathering puts into the record, and which trace it leaves.

`Added` is one step of the first phase. A constant member leaves the record
alone and writes a source; any other member extends it, and may introduce a
channel in front of its buffer. `Gathered` is a run of such steps. The invariant
`Members.Sound` holds of everything that was gathered from nothing, and is all
that the second phase needs to know.

The arguments of the unit are found by lowering the bodies, and the wires that
serve them by counting reads. `gathered_args` says that these are the same
channels in the same order.

## Main definitions

* `Members.grow`: The record after a member that is not constant.
* `Driven`: The channel that an output drives.
* `Added`, `Gathered`: One step and a run of gathering.
* `Members.Sound`: What a gathered record satisfies.

## Theorems

* `walk_driveOutput`, `walk_addMember`, `walk_addMembers`: Walks over gathering.
* `gathered_of_addMembers`: What a run has gathered.
* `Members.Sound.wires_eq_nil_iff`, `Members.Sound.buffers_eq_nil`: A record
  without statements.
* `gathered_sound`: Gathering keeps the invariant.
* `gathered_args`: Arguments are the reads of the members.
* `gathered_wires`: Every member that is not constant drives one wire.
* `gathered_sites`: The sites written on the way are the sources.
* `gathered_unit`: The bodies alone determine the unit.
-/

namespace DataflowCircuit

namespace Expr

/-- A literal under casts reads nothing. -/
theorem addReads_of_const (e : Expr) (v : Nat) (refs : List ChannelId)
    (h : e.asConst? = some v) : e.addReads refs = refs := by
  induction e with
  | const v => rfl
  | cast arg w ih => exact ih h
  | var id => cases h
  | binary op lhs rhs => cases h
  | unary op arg => cases h
  | query c t e => cases h

/-- A result that holds the value of an expression exists. -/
theorem lower_res_lt (s : Scope) (element : String) (e : Expr) (w i : Nat) (b b' : UnitBuilder)
    (h : e.lower s element w b = .ok (.res i) b') : i < b'.statements.length := by
  have hpushed : ∀ (b₁ : UnitBuilder) t op v,
      b₁.statements.length < (b₁.pushed t op v).statements.length := by
    intro b₁ t op v
    rw [UnitBuilder.pushed_statements, List.length_append, List.length_singleton]
    omega
  induction e generalizing w with
  | const v =>
      rcases lower_const_ok s element v w _ b b' h with ⟨hc, _⟩
      cases hc
  | var id =>
      rcases UnitBuilder.arg_ok s id _ b b' h with ⟨_, _, hc, _⟩ | ⟨_, _, _, hc, _⟩
      · cases hc
      · cases hc
  -- A cast hands back what its argument did.
  | cast arg v ih => exact ih (v.getD w) h
  | unary op arg =>
      rcases lower_unary_ok s element op arg w _ b b' h with ⟨x, b₁, _, _, hi, rfl⟩
      cases hi
      exact hpushed b₁ _ _ _
  | binary op lhs rhs =>
      rcases lower_binary_ok s element op lhs rhs w _ b b' h with
        ⟨_, x, b₁, y, b₂, _, _, _, _, hi, rfl⟩
      cases hi
      exact hpushed b₂ _ _ _
  | query c t e =>
      rcases lower_query_ok s element c t e w _ b b' h with
        ⟨x, b₁, y, b₂, z, b₃, _, _, _, _, _, hi, rfl⟩
      cases hi
      exact hpushed b₃ _ _ _

/-- A function body is driven by a statement that exists. -/
theorem lowerOutput_lt (s : Scope) (element : String) (e : Expr) (w i : Nat)
    (b b' : UnitBuilder) (h : e.lowerOutput s element w b = .ok i b') :
    i < b'.statements.length := by
  rcases lowerOutput_ok s element e w i b b' h with hres | ⟨slot, b₁, _, rfl, rfl⟩
  · exact lower_res_lt s element e w i b b' hres
  · rw [UnitBuilder.pushed_statements, List.length_append, List.length_singleton]
    omega

/-- A channel that is there already is not added again. -/
theorem addRead_nodup (refs : List ChannelId) (id : ChannelId) (h : refs.Nodup) :
    (addRead refs id).Nodup := by
  unfold addRead
  by_cases hmem : id ∈ refs
  · rw [if_pos hmem]
    exact h
  · rw [if_neg hmem]
    refine List.nodup_append.mpr ⟨h, List.pairwise_singleton _ id, ?_⟩
    intro a ha b hb hab
    rw [List.mem_singleton] at hb
    rw [hab, hb] at ha
    exact hmem ha

/-- No channel is added twice. -/
theorem addReads_nodup (e : Expr) (refs : List ChannelId) (h : refs.Nodup) :
    (e.addReads refs).Nodup := by
  induction e generalizing refs with
  | const v => exact h
  | var id => exact addRead_nodup refs id h
  | binary op lhs rhs ihl ihr => exact ihr _ (ihl refs h)
  | unary op arg ih => exact ih refs h
  | query c t e ihc iht ihe => exact ihe _ (iht _ (ihc refs h))
  | cast arg w ih => exact ih refs h

end Expr

/-- The reads of functions are distinct. -/
theorem readsOfFuncs_nodup (funcs : List (Func ChannelId Expr)) : (readsOfFuncs funcs).Nodup := by
  have hfold : ∀ (fs : List (Func ChannelId Expr)) (refs : List ChannelId), refs.Nodup →
      (fs.foldl (fun refs f => f.expr.addReads refs) refs).Nodup := by
    intro fs
    induction fs with
    | nil => exact fun refs h => h
    | cons f fs ih => exact fun refs h => ih _ (Expr.addReads_nodup f.expr refs h)
  exact hfold funcs [] List.nodup_nil

namespace Lowering

/-- The members after one was added whose body is result number `result` of
    `builder`, and whose output drives `channel`. -/
def Members.grow (ms : Members) (clustered : Bool) (position : Nat) (f : Func ChannelId Expr)
    (wire : String) (width result : Nat) (builder : UnitBuilder) (channel : String) :
    Members where
  builder :=
    { builder with name := builder.name ++ memberTokens clustered position width (initialToken f) }
  outputs := ms.outputs ++ [⟨result, width, initialToken f⟩]
  wires := ms.wires ++ [channel]
  names := ms.names ++ [normalizeChannel wire]
  buffers := ms.buffers ++ (bufferDepth? f).elim [] fun depth =>
    [⟨ms.outputs.length, width, depth, initialToken f, channel, wire⟩]

/-- The buffers after a member, of which only what is noted for them counts. -/
theorem Members.map_buffers_grow {α : Type} (ms : Members) (clustered : Bool) (position : Nat)
    (f : Func ChannelId Expr) (wire : String) (width result : Nat) (builder : UnitBuilder)
    (channel : String) (g : PendingBuffer → α) :
    (ms.grow clustered position f wire width result builder channel).buffers.map g
      = ms.buffers.map g ++ (bufferDepth? f).elim [] fun depth =>
          [g ⟨ms.outputs.length, width, depth, initialToken f, channel, wire⟩] := by
  unfold grow
  rw [List.map_append]
  cases bufferDepth? f <;> rfl

/-- The channel that an output drives, and how it came about: it is the declared
    one, or was introduced in front of a buffer. -/
inductive Driven (f : Func ChannelId Expr) (wire : String) (width : Nat) :
    String → Trace → Prop where
  | declared (hdepth : bufferDepth? f = none) : Driven f wire width wire ∅
  | introduced (depth : Nat) (channel : String) (hdepth : bufferDepth? f = some depth) :
      Driven f wire width channel
        (.name (.plain (normalizeChannel wire ++ "_buf")) channel ++
          .channel ⟨channel, .int width⟩)

/-- Adding the member at a position, with the trace that is left. -/
inductive Added (s : Scope) (element : String) (clustered : Bool) (position : Nat)
    (f : Func ChannelId Expr) (ms : Members) : Members → Trace → Prop where
  /-- A constant is sent by a source. -/
  | source (value : Nat) (out : ChannelId) (hconst : f.expr.asConst? = some value)
      (hout : f.output = some out) :
      Added s element clustered position f ms ms (.writes [⟨.source value (s.widthOf out),
        normalizeChannel (s.nameOf out) ++ "_inst", [s.nameOf out]⟩])
  | member (out : ChannelId) (width result : Nat) (builder : UnitBuilder) (channel : String)
      (τ : Trace) (hconst : f.expr.asConst? = none) (hout : f.output = some out)
      (hwidth : s.width out = .ok width)
      (hlower : f.expr.lowerOutput s element width ms.builder = .ok result builder)
      (hfits : ∀ v ∈ initialToken f, Fits v width)
      (hdrive : Driven f (s.nameOf out) width channel τ) :
      Added s element clustered position f ms
        (ms.grow clustered position f (s.nameOf out) width result builder channel) τ

/-- Adding members from a position on. -/
inductive Gathered (s : Scope) (element : String) (clustered : Bool) :
    Nat → List (Func ChannelId Expr) → Members → Members → Trace → Prop where
  | done (position : Nat) (ms : Members) : Gathered s element clustered position [] ms ms ∅
  | step (position : Nat) (f : Func ChannelId Expr) (fs : List (Func ChannelId Expr))
      (ms ms₁ ms' : Members) (τ τ' : Trace)
      (hadd : Added s element clustered position f ms ms₁ τ)
      (hrest : Gathered s element clustered (position + 1) fs ms₁ ms' τ') :
      Gathered s element clustered position (f :: fs) ms ms' (τ ++ τ')

section Gathering

variable {known : List (String × Cost)} (sub : Subject) (element : String) (clustered : Bool)

/-- A source is written for the channel it drives. -/
theorem walk_lowerSource (value : Nat) (out : ChannelId) :
    Walk known (lowerSource sub element value out) fun _ τ =>
      τ = .writes [⟨.source value (sub.scope.widthOf out),
        normalizeChannel (sub.scope.nameOf out) ++ "_inst", [sub.scope.nameOf out]⟩] := by
  refine Walk.lift fun width hwidth => Walk.guard fun _ => ?_
  rw [Scope.widthOf_of_ok sub.scope out width hwidth]
  exact Walk.source value width _ _

/-- An output drives its channel, or a new one in front of a buffer. -/
theorem walk_driveOutput (f : Func ChannelId Expr) (wire : String) (width : Nat) :
    Walk known (driveOutput f wire width) (Driven f wire width) := by
  unfold driveOutput
  cases hdepth : bufferDepth? f with
  | none => exact Walk.pure (.declared hdepth)
  | some depth =>
      -- A buffered output gets a name of its own, and the channel is declared at once.
      refine (Walk.draw _).bind ?_
      rintro channel _ rfl
      refine (Walk.declareChannel channel width).bind ?_
      rintro _ _ rfl
      refine Walk.pure ?_
      rw [Trace.append_empty]
      exact .introduced depth channel hdepth

/-- A member is a source or part of the unit. -/
theorem walk_addMember (position : Nat) (f : Func ChannelId Expr) (ms : Members) :
    Walk known (addMember sub element clustered position f ms)
      (Added sub.scope element clustered position f ms) := by
  unfold addMember
  cases hout : f.output with
  | none => exact Walk.throw _
  | some out =>
      refine Walk.lift fun width hwidth => ?_
      -- Constants never reach the builder.
      cases hconst : f.expr.asConst? with
      | some value =>
          refine (walk_lowerSource sub element value out).bind ?_
          rintro _ _ rfl
          refine Walk.pure ?_
          rw [Trace.append_empty]
          exact .source value out hconst hout
      | none =>
          refine Walk.onBuilder fun result builder hlower => ?_
          have hrest (hfits : ∀ v ∈ initialToken f, Fits v width) : Walk known
              (driveOutput f (sub.scope.nameOf out) width >>= fun channel => pure
                (ms.grow clustered position f (sub.scope.nameOf out) width result builder channel))
              (Added sub.scope element clustered position f ms) := by
            refine (walk_driveOutput f (sub.scope.nameOf out) width).bind fun channel τ hτ => ?_
            refine Walk.pure ?_
            rw [Trace.append_empty]
            exact .member out width result builder channel τ hconst hout hwidth hlower hfits hτ
          -- The check of the initial token changes nothing about the rest.
          unfold Members.grow at hrest
          cases hinit : initialToken f with
          | none =>
              rw [hinit] at hrest
              exact hrest fun v hv => absurd hv (Option.not_mem_none v)
          | some v =>
              rw [hinit] at hrest
              refine Walk.guard fun hfits => hrest fun u hu => ?_
              rw [← Option.some.inj hu]
              exact not_not.mp hfits

/-- Members are gathered one after another. -/
theorem walk_addMembers (position : Nat) (fs : List (Func ChannelId Expr)) (ms : Members) :
    Walk known (addMembers sub element clustered position fs ms)
      (Gathered sub.scope element clustered position fs ms) := by
  induction fs generalizing position ms with
  | nil => exact Walk.pure (.done position ms)
  | cons f fs ih =>
      refine (walk_addMember sub element clustered position f ms).bind fun ms₁ τ hadd => ?_
      refine (ih (position + 1) ms₁).mono fun ms' τ' hrest => ?_
      exact .step position f fs ms ms₁ ms' τ τ' hadd hrest

/-- Every run of gathering members gathers them. -/
theorem gathered_of_addMembers (position : Nat) (fs : List (Func ChannelId Expr))
    (ms ms' : Members) (l l' : Lowering)
    (h : addMembers sub element clustered position fs ms l = .ok ms' l') :
    ∃ τ, Gathered sub.scope element clustered position fs ms ms' τ :=
  ((walk_addMembers sub element clustered position fs ms).of_ok h).imp fun _ hτ => hτ.1

end Gathering

/-- What holds of members that were gathered from nothing. -/
structure Members.Sound (ms : Members) : Prop where
  /-- A buffer stands behind an output. -/
  buffered : ∀ b ∈ ms.buffers, b.channel ∈ ms.wires
  /-- Without outputs there are no arguments and no statements. -/
  bare : ms.wires = [] → ms.builder.args = [] ∧ ms.builder.statements = []
  /-- An output is driven by a statement. -/
  stated : ms.wires ≠ [] → ms.builder.statements ≠ []
  /-- A name ends in a width or a position. -/
  closed : ms.wires ≠ [] → ∃ ts t, ms.builder.name = ts ++ [t] ∧ t.endsName = true

section Sound

variable {ms : Members} (h : ms.Sound)

include h

/-- Outputs and statements come together. -/
theorem Members.Sound.wires_eq_nil_iff :
    ms.wires = [] ↔ ms.builder.statements.isEmpty = true := by
  rw [List.isEmpty_iff]
  constructor
  · exact fun hnil => (h.bare hnil).2
  · intro hstatements
    by_contra hne
    exact h.stated hne hstatements

/-- Without a statement there is no output, so there is no buffer either. -/
theorem Members.Sound.buffers_eq_nil (hempty : ms.builder.statements.isEmpty = true) :
    ms.buffers = [] := by
  refine List.eq_nil_iff_forall_not_mem.mpr fun b hb => ?_
  have hwire := h.buffered b hb
  rw [h.wires_eq_nil_iff.mpr hempty] at hwire
  exact absurd hwire List.not_mem_nil

end Sound

/-- Without members there is nothing to check. -/
theorem sound_empty : Members.empty.Sound :=
  ⟨fun _ h => absurd h List.not_mem_nil, fun _ => ⟨rfl, rfl⟩, fun h => absurd rfl h,
    fun h => absurd rfl h⟩

section Gathered

variable {s : Scope} {element : String} {clustered : Bool} {position : Nat}
  {f : Func ChannelId Expr} {fs : List (Func ChannelId Expr)} {ms ms' : Members}
  {τ : Trace}

/-- The pieces that follow a member end its name. -/
theorem memberTokens_ends (clustered : Bool) (position width : Nat) (init : Option Nat) :
    ∃ ts t, memberTokens clustered position width init = ts ++ [t] ∧ t.endsName = true := by
  unfold memberTokens
  cases clustered with
  | true => exact ⟨_, .member position, rfl, rfl⟩
  | false => exact ⟨_, .width width, List.append_nil _, rfl⟩

/-- Adding a member keeps the invariant. -/
theorem added_sound (h : Added s element clustered position f ms ms' τ) (hms : ms.Sound) :
    ms'.Sound := by
  cases h with
  | source value out hconst hout => exact hms
  | member out width result builder channel τ hconst hout hwidth hlower =>
      have hne : ms.wires ++ [channel] ≠ [] := List.append_ne_nil_of_right_ne_nil _ (by simp)
      refine ⟨?_, fun hnil => absurd hnil hne, ?_, ?_⟩
      · intro b hb
        rcases List.mem_append.mp hb with hold | hnew
        · exact List.mem_append_left _ (hms.buffered b hold)
        -- A buffer that was added now stands behind the output of this member.
        · have hchannel : b.channel = channel := by
            cases hdepth : bufferDepth? f with
            | none =>
                rw [hdepth] at hnew
                exact absurd hnew List.not_mem_nil
            | some depth =>
                rw [hdepth] at hnew
                rw [List.mem_singleton.mp hnew]
          rw [hchannel]
          exact List.mem_append_right _ (List.mem_singleton_self channel)
      · intro _ hnil
        -- The body is driven by a statement, so there is one.
        have hlt := Expr.lowerOutput_lt s element f.expr width result ms.builder builder hlower
        have hzero : builder.statements = [] := hnil
        rw [hzero, List.length_nil] at hlt
        exact absurd hlt (Nat.not_lt_zero result)
      · intro _
        rcases memberTokens_ends clustered position width (initialToken f) with ⟨ts, t, heq, ht⟩
        refine ⟨builder.name ++ ts, t, ?_, ht⟩
        change builder.name ++ memberTokens clustered position width (initialToken f) = _
        rw [heq, List.append_assoc]

/-- Gathering members keeps the invariant. -/
theorem gathered_sound (h : Gathered s element clustered position fs ms ms' τ)
    (hms : ms.Sound) : ms'.Sound := by
  induction h with
  | done position ms => exact hms
  | step position f fs ms ms₁ ms' τ τ' hadd hrest ih => exact ih (added_sound hadd hms)

/-- The arguments of a unit are the reads of its members, in order. -/
theorem gathered_args (h : Gathered s element clustered position fs ms ms' τ) :
    ms'.builder.args = fs.foldl (fun refs f => f.expr.addReads refs) ms.builder.args := by
  induction h with
  | done position ms => rfl
  | step position f fs ms ms₁ ms' τ τ' hadd hrest ih =>
      -- A constant adds no argument, and reads no channel either.
      have hstep : ms₁.builder.args = f.expr.addReads ms.builder.args := by
        cases hadd with
        | source value out hconst hout =>
            rw [Expr.addReads_of_const f.expr value _ hconst]
        | member out width result builder channel τ hconst hout hwidth hlower =>
            exact Expr.lowerOutput_args s element f.expr width result ms.builder builder hlower
      rw [ih, hstep, List.foldl_cons]

/-- Every member that is not constant drives one wire. -/
theorem gathered_wires (h : Gathered s element clustered position fs ms ms' τ) :
    ms'.wires.length
      = ms.wires.length + (fs.filter fun f => f.expr.asConst?.isNone).length := by
  induction h with
  | done position ms => rfl
  | step position f fs ms ms₁ ms' τ τ' hadd hrest ih =>
      cases hadd with
      | source value out hconst hout =>
          rw [ih, List.filter_cons_of_neg (by rw [hconst]; exact Bool.false_ne_true)]
      | member out width result builder channel τ hconst hout hwidth hlower =>
          -- The members that count here are those that the filter keeps.
          have hgrow : (ms.grow clustered position f (s.nameOf out) width result builder
              channel).wires.length = ms.wires.length + 1 := List.length_append
          rw [ih, hgrow, List.filter_cons_of_pos (by rw [hconst]; rfl), List.length_cons]
          omega

/-- While members are gathered, nothing is asked about the kind of templates and no
    read is served. -/
theorem gathered_quiet (h : Gathered s element clustered position fs ms ms' τ) :
    τ.kinds = [] ∧ τ.served = [] := by
  induction h with
  | done position ms => exact ⟨rfl, rfl⟩
  | step position f fs ms ms₁ ms' τ τ' hadd hrest ih =>
      rw [Trace.kinds_append, Trace.served_append, ih.1, ih.2]
      cases hadd with
      | source value out hconst hout => exact ⟨rfl, rfl⟩
      | member out width result builder channel τ hconst hout hwidth hlower hfits hdrive =>
          cases hdrive <;> exact ⟨rfl, rfl⟩

/-- The sites written while gathering are the sources of the constant members,
    each with the channel it drives as its only port. -/
theorem gathered_sites (h : Gathered s element clustered position fs ms ms' τ) :
    τ.sites.filterMap Site.unit? = [] ∧ τ.sites.map Site.ports
      = (fs.filter fun f => f.expr.asConst?.isSome).map fun f => f.output.toList.map s.nameOf := by
  induction h with
  | done position ms => exact ⟨rfl, rfl⟩
  | step position f fs ms ms₁ ms' τ τ' hadd hrest ih =>
      rcases ih with ⟨hunits, hports⟩
      rw [Trace.sites_append, List.filterMap_append, List.map_append, hunits, hports]
      cases hadd with
      | source value out hconst hout =>
          refine ⟨rfl, ?_⟩
          rw [List.filter_cons_of_pos (by rw [hconst]; rfl), List.map_cons, hout]
          rfl
      | member out width result builder channel τ hconst hout hwidth hlower hfits hdrive =>
          rw [List.filter_cons_of_neg (by rw [hconst]; exact Bool.false_ne_true)]
          -- Driving an output names and declares, but writes no site.
          cases hdrive <;> exact ⟨rfl, rfl⟩

end Gathered

/-- Gathering leaves the builder and the outputs that the bodies alone
    determine. -/
theorem gathered_unit {s : Scope} {element : String} {clustered : Bool} {position : Nat}
    {fs : List (Func ChannelId Expr)} {ms ms' : Members} {τ : Trace}
    (h : Gathered s element clustered position fs ms ms' τ) :
    gatherUnit s element clustered position fs ms.builder ms.outputs
      = some (ms'.builder, ms'.outputs) := by
  induction h with
  | done position ms => rfl
  | step position f fs ms ms₁ ms' τ τ' hadd hrest ih =>
      cases hadd with
      | source value out hconst hout =>
          rw [gatherUnit, hconst]
          exact ih
      | member out width result builder channel τ hconst hout hwidth hlower =>
          rw [gatherUnit, hconst, hout]
          simp only [Option.bind_eq_bind, Option.bind_some, hwidth, Except.toOption, hlower]
          exact ih

end Lowering

end DataflowCircuit
