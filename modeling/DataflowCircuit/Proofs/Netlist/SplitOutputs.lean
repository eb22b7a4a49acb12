import DataflowCircuit.Proofs.Lowering.Consistency
import DataflowCircuit.Proofs.Netlist.IntroducedChannels
import DataflowCircuit.Proofs.Process.Aliases

/-!
# Outputs of Splits

A split delivers a token on each of its outputs, wanted or not, so an output that
nobody observes is given a sink of its own. Whether somebody does is asked of the
wire that the output is on, after aliases: some element may read the wire, under
any of its names, or the wire may lead out of the process.

The second question is put to the root of the wire alone. That root is the
channel which was declared first, whatever the order of the aliases, and it need
not be a port although another channel of the wire is one. So the exact condition
under which an output is kept speaks of the earliest channel of the wire. It
becomes the expected one, a port anywhere on the wire, as soon as the ports of a
process are declared before its other channels; a process in which a local
channel was declared first and then tied to a port loses what a split sends
there.

Nothing is assumed about how the scope came to be: channels may be declared and
tied in any order, with attempts that fail in between.

## Main definitions

* `WireRead`, `WireHasPort`, `WireObserved`: What an output is kept for.
* `SplitOutput`: The wire of an output, which is that of its channel or of a sink.

## Theorems

* `Element.mem_reads_map`: The reads of an element over roots.
* `observes_canonical_iff`: What a process observes.
* `wireObserved_iff_of_ports_first`: A port anywhere on a wire will do if ports
  come first.
* `split_outputs_kept_iff`: The outputs of a split that are kept.
-/

namespace DataflowCircuit

section Reads

variable (f : ChannelId → ChannelId)

/-- The channels of an expression under a renaming. -/
theorem Expr.mem_addReads_map (e : Expr) (id : ChannelId) :
    id ∈ (e.map f).addReads [] ↔ ∃ c ∈ e.addReads [], f c = id := by
  induction e with
  | const v => simp [map, addReads]
  | var c => simp [map, addReads, addRead, eq_comm]
  | unary op arg ih => exact ih
  | cast arg w ih => exact ih
  | binary op lhs rhs ihl ihr =>
      -- What the second operand reads is added to what the first one reads.
      rw [map, addReads, mem_addReads, ihl, ihr, addReads]
      simp only [mem_addReads rhs (lhs.addReads []), or_and_right, exists_or]
  | query c t e ihc iht ihe =>
      rw [map, addReads, mem_addReads, mem_addReads, ihc, iht, ihe, addReads]
      simp only [mem_addReads e (t.addReads _), mem_addReads t (c.addReads []), or_and_right,
        exists_or]

/-- The channels that an element reads under a renaming. -/
theorem Element.mem_reads_map (el : Element ChannelId Expr) (id : ChannelId) :
    id ∈ (el.map f (Expr.map f)).reads ↔ ∃ c ∈ el.reads, f c = id := by
  -- A function and a cluster read what the expressions of their members read.
  have hfuncs : ∀ funcs : List (Func ChannelId Expr),
      id ∈ readsOfFuncs (funcs.map (Func.map f (Expr.map f))) ↔
        ∃ c ∈ readsOfFuncs funcs, f c = id := by
    intro funcs
    simp only [mem_readsOfFuncs, List.mem_map, exists_exists_and_eq_and, Func.map,
      Expr.mem_addReads_map]
    constructor
    · rintro ⟨fn, hfn, c, hc, hid⟩
      exact ⟨c, ⟨fn, hfn, hc⟩, hid⟩
    · rintro ⟨c, ⟨fn, hfn, hc⟩, hid⟩
      exact ⟨fn, hfn, c, hc, hid⟩
  cases el with
  | func fn => exact hfuncs [fn]
  | cluster funcs => exact hfuncs funcs
  | split guard input outputs => simp [map, reads, eq_comm]
  | merge guard inputs out => simp [map, reads, eq_comm]
  | mixer inputs out => simp [map, reads]
  | arbiter inputs out ctrl => simp [map, reads]
  | sink input => simp [map, reads, eq_comm]

end Reads

section Wires

open Scope

variable (s : Scope) (pairs : List (ChannelId × ChannelId))
  (elements : List (Element ChannelId Expr))

/-- Does some element read a channel on the wire of `id`? -/
def WireRead (id : ChannelId) : Prop :=
  ∃ el ∈ elements, ∃ c ∈ el.reads, SameWire pairs id c

/-- Is some channel on the wire of `id` a port? -/
def WireHasPort (id : ChannelId) : Prop :=
  ∃ m c, SameWire pairs id m ∧ s.channel? m = some c ∧ c.kind.isPort = true

/-- Is the wire of `id` read, or its earliest channel a port? -/
def WireObserved (id : ChannelId) : Prop :=
  WireRead pairs elements id ∨ ∃ root c, IsLeast {m | SameWire pairs id m} root ∧
    s.channel? root = some c ∧ c.kind.isPort = true

variable {s pairs}

/-- What a process observes, asked of the root of a wire. -/
theorem observes_canonical_iff (h : s.Wired pairs) (name : String) (id : ChannelId) :
    (Process.finish name s elements).observes (s.canonical id) = true ↔
      WireObserved s pairs elements id := by
  -- The elements of the process mention roots, and two channels have one root exactly if they
  -- are on one wire.
  have hread : s.canonical id ∈ (Process.finish name s elements).reads ↔
      WireRead pairs elements id := by
    unfold Process.reads Process.finish WireRead
    simp only [List.mem_flatMap, List.mem_map, exists_exists_and_eq_and, Element.mem_reads_map,
      h.same_iff, eq_comm (a := s.canonical id)]
  -- The root of a wire is its earliest channel.
  have hroot : ((s.channel? (s.canonical id)).any (·.kind.isPort)) = true ↔
      ∃ root c, IsLeast {m | SameWire pairs id m} root ∧ s.channel? root = some c ∧
        c.kind.isPort = true := by
    rw [Option.any_eq_true]
    constructor
    · rintro ⟨c, hc, hport⟩
      exact ⟨s.canonical id, c, h.isLeast id, hc, hport⟩
    · rintro ⟨root, c, hleast, hc, hport⟩
      rw [hleast.unique (h.isLeast id)] at hc
      exact ⟨c, hc, hport⟩
  unfold Process.observes WireObserved
  rw [Bool.or_eq_true, List.contains_iff_mem, hread]
  exact or_congr Iff.rfl hroot

/-- If every port is declared before every other channel, a wire with a port has
    one for its root. -/
theorem wireObserved_iff_of_ports_first (h : s.Wired pairs)
    (hfirst : ∀ i j c d, s.channel? i = some c → s.channel? j = some d →
      c.kind.isPort = true → d.kind.isPort = false → i < j) (id : ChannelId) :
    WireObserved s pairs elements id ↔ WireRead pairs elements id ∨ WireHasPort s pairs id := by
  refine or_congr Iff.rfl ⟨?_, ?_⟩
  · rintro ⟨root, c, hleast, hc, hport⟩
    exact ⟨root, c, hleast.1, hc, hport⟩
  · rintro ⟨m, c, hm, hc, hport⟩
    have hleast := h.isLeast id
    have hle : s.canonical id ≤ m := hleast.2 hm
    have hlt : m < s.channels.length := (List.getElem?_eq_some_iff.mp hc).1
    rcases channel_of_lt s (s.canonical id) (Nat.lt_of_le_of_lt hle hlt) with ⟨d, hd⟩
    refine ⟨s.canonical id, d, hleast, hd, ?_⟩
    -- A local root would have been declared before the port, against the assumption.
    by_contra hlocal
    have hbefore := hfirst m (s.canonical id) c d hc hd hport (by simpa using hlocal)
    exact absurd hle (Nat.not_le_of_lt hbefore)

end Wires

section Splits

/-- The wire of an output of a split, if the split has the sinks of the wires
    `sunk`: the channel that comes first on the wire of the output if that wire is
    observed, and otherwise the wire of a sink, which is not declared. -/
inductive SplitOutput (s : Scope) (pairs : List (ChannelId × ChannelId))
    (elements : List (Element ChannelId Expr)) (sunk : List String) :
    Option ChannelId → String → Prop where
  | kept (id root : ChannelId) (hobserved : WireObserved s pairs elements id)
      (hroot : IsLeast {m | SameWire pairs id m} root) (hkept : s.nameOf root ∉ sunk) :
      SplitOutput s pairs elements sunk (some id) (s.nameOf root)
  | sunk (output : Option ChannelId) (wire : String)
      (hunobserved : ∀ id, output = some id → ¬ WireObserved s pairs elements id)
      (hfresh : wire ∉ s.names) (hsunk : wire ∈ sunk) :
      SplitOutput s pairs elements sunk output wire

/-- The wires of the outputs of a split, given what is observed. -/
theorem forall₂_connect_split (s : Scope) (observed : ChannelId → Bool) (width : Nat)
    (outputs : List (Option ChannelId)) (names : List String)
    (hlength : names.length
      = ((Element.splitOutputs s observed width outputs).filterMap Outlet.seam?).length) :
    List.Forall₂ (fun output name =>
        (∃ id, output = some id ∧ observed id = true ∧ name = s.nameOf id) ∨
          (∀ id, output = some id → observed id = false) ∧ name ∈ names) outputs
      ((connect (Element.splitOutputs s observed width outputs) names).map Wire.name) := by
  unfold Element.splitOutputs at hlength ⊢
  induction outputs generalizing names with
  | nil => exact .nil
  | cons output outputs ih =>
      rw [List.map_cons] at hlength ⊢
      -- Either the output keeps its channel, or it takes the next name.
      cases hkept : output.filter observed with
      | some id =>
          rw [hkept] at hlength
          rcases Option.filter_eq_some_iff.mp hkept with ⟨houtput, hobserved⟩
          exact .cons (Or.inl ⟨id, houtput, hobserved, rfl⟩) (ih names hlength)
      | none =>
          rw [hkept] at hlength
          cases names with
          | nil => cases hlength
          | cons first names =>
              -- An output without a channel is observed by nobody.
              have hnone : ∀ id, output = some id → observed id = false := by
                rintro id rfl
                simpa using hkept
              refine .cons (Or.inr ⟨hnone, List.mem_cons_self⟩) ?_
              refine (ih names (Nat.succ.inj hlength)).imp fun output name h => ?_
              exact h.imp id fun h => ⟨h.1, List.mem_cons_of_mem _ h.2⟩

/-- Behind a split stand the sinks of the channels that it introduces. -/
theorem splitSeams_eq (s : Scope) (observed : ChannelId → Bool) (width : Nat)
    (outputs : List (Option ChannelId)) :
    ∀ seam ∈ (Element.splitOutputs s observed width outputs).filterMap Outlet.seam?,
      seam = ⟨width, .sink width, []⟩ := by
  intro seam hseam
  rcases List.mem_filterMap.mp hseam with ⟨outlet, houtlet, hfresh⟩
  rcases List.mem_map.mp houtlet with ⟨output, _, rfl⟩
  cases hkept : output.filter observed with
  | some id =>
      rw [hkept] at hfresh
      cases hfresh
  | none =>
      rw [hkept] at hfresh
      cases hfresh
      rfl

/-- The sinks of introduced channels. -/
theorem sinks_of_isFor (width : Nat) (seams : List Seam) (names : List String)
    (sinks : List Instance) (hlength : names.length = seams.length)
    (hseams : ∀ seam ∈ seams, seam = ⟨width, .sink width, []⟩)
    (h : List.Forall₂ Placement.IsFor (List.zipWith Seam.placement seams names) sinks) :
    sinks.map Instance.ports = names.map (fun name => [name]) ∧
      ∀ sink ∈ sinks, sink.key = Lowering.sinkKey width := by
  induction seams generalizing names sinks with
  | nil =>
      rw [List.length_eq_zero_iff.mp hlength] at h ⊢
      cases h
      exact ⟨rfl, fun _ hsink => absurd hsink List.not_mem_nil⟩
  | cons seam seams ih =>
      rw [List.forall_mem_cons] at hseams
      cases names with
      | nil => cases hlength
      | cons name names =>
          -- The first sink is for the first seam, under the first name.
          rcases List.forall₂_cons_left_iff.mp h with ⟨sink, rest, ⟨hkey, hports⟩, hrest, rfl⟩
          rcases ih names rest (Nat.succ.inj hlength) hseams.2 hrest with ⟨hmap, hkeys⟩
          rw [hseams.1] at hkey hports
          refine ⟨?_, List.forall_mem_cons.mpr ⟨hkey, hkeys⟩⟩
          rw [List.map_cons, hmap, hports]
          rfl

/-- The instances of a split: its own, which lists the wires of its outputs behind
    its guard and its input, and after it the sinks of the outputs that are not
    kept. -/
def SplitInstances (s : Scope) (pairs : List (ChannelId × ChannelId))
    (elements : List (Element ChannelId Expr)) (pipeline : Bool) (guard input : ChannelId)
    (outputs : List (Option ChannelId)) (part : List Instance) : Prop :=
  ∃ (own : Instance) (sinks : List Instance) (guardWire inputWire : String)
    (wires sunk : List String),
    part = own :: sinks ∧
    own.key = (Component.routing .split pipeline outputs.length
      [s.widthOf (s.canonical guard), s.widthOf (s.canonical input)]).key ∧
    own.ports = guardWire :: inputWire :: wires ∧
    List.Forall₂ (SplitOutput s pairs elements sunk) outputs wires ∧
    sinks.map Instance.ports = sunk.map (fun wire => [wire]) ∧
    ∀ sink ∈ sinks, sink.key = Lowering.sinkKey (s.widthOf (s.canonical input))

variable {s : Scope} {pairs : List (ChannelId × ChannelId)}
  {elements : List (Element ChannelId Expr)}

/-- The output of a split over roots is that of the split. -/
theorem splitOutput_of_connected (h : s.Wired pairs) (name : String) (names : List String)
    (hfresh : ∀ wire ∈ names, wire ∉ s.names ∧ ∀ id, s.nameOf id ≠ wire)
    (output : Option ChannelId) (wire : String)
    (hwire : (∃ id, output.map s.canonical = some id ∧
        (Process.finish name s elements).observes id = true ∧ wire = s.nameOf id) ∨
      (∀ id, output.map s.canonical = some id →
        (Process.finish name s elements).observes id = false) ∧ wire ∈ names) :
    SplitOutput s pairs elements names output wire := by
  rcases hwire with ⟨id, houtput, hobserved, rfl⟩ | ⟨hnone, hmem⟩
  -- The channel that the split has is the root of the one that was written.
  · rcases Option.map_eq_some_iff.mp houtput with ⟨channel, rfl, rfl⟩
    refine .kept channel (s.canonical channel)
      ((observes_canonical_iff elements h name channel).mp hobserved) (h.isLeast channel) ?_
    exact fun hmem => (hfresh _ hmem).2 _ rfl
  · refine .sunk output wire ?_ (hfresh wire hmem).1 hmem
    rintro id rfl hobserved
    have hkept := (observes_canonical_iff elements h name id).mpr hobserved
    rw [hnone (s.canonical id) rfl] at hkept
    cases hkept

/-- Instances for the call sites of a split over roots are those of the split. -/
theorem splitInstances_of_placed (h : s.Wired pairs) (name : String) (pipeline : Bool)
    (T : Bodies) (guard input : ChannelId) (outputs : List (Option ChannelId))
    (part : List String × List Instance)
    (hfresh : ∀ wire ∈ part.1, wire ∉ s.names ∧ ∀ id, s.nameOf id ≠ wire)
    (hpart : ((Element.split guard input outputs).map s.canonical
      (Expr.map s.canonical)).PlacedIn (Process.finish name s elements) pipeline T part) :
    SplitInstances s pairs elements pipeline guard input outputs part.2 := by
  rcases hpart with ⟨hlength, ws, hws, hplaced⟩
  cases ws with
  | nil => cases hws
  | cons inputWire ws =>
      cases ws with
      | nil => cases hws
      | cons guardWire ws =>
          -- A split is served two wires and no third.
          rw [List.length_eq_zero_iff.mp (Nat.succ.inj (Nat.succ.inj hws))] at hplaced
          rcases List.forall₂_cons_left_iff.mp hplaced with
            ⟨own, sinks, ⟨hkey, hports⟩, hsinks, hsplit⟩
          rcases sinks_of_isFor _ _ part.1 sinks hlength (splitSeams_eq s _ _ _) hsinks with
            ⟨hsunk, hkeys⟩
          -- The wires of the outputs are connected in the order of the outputs.
          have hwires := forall₂_connect_split s
            (Process.finish name s elements).observes _ _ part.1 hlength
          rw [List.forall₂_map_left_iff] at hwires
          refine ⟨own, sinks, guardWire, inputWire, _, part.1, hsplit, ?_, hports, ?_, hsunk,
            hkeys⟩
          · rw [hkey, List.length_map]
            rfl
          · exact hwires.imp fun output wire => splitOutput_of_connected h name part.1 hfresh
              output wire

/-- So it is with all splits among elements. -/
theorem splitInstances_of_parts (h : s.Wired pairs) (name : String) (pipeline : Bool)
    (T : Bodies) (els : List (Element ChannelId Expr)) (parts : List (List String × List Instance))
    (hfresh : ∀ wire ∈ parts.flatMap Prod.fst, wire ∉ s.names ∧ ∀ id, s.nameOf id ≠ wire)
    (hparts : List.Forall₂ (Element.PlacedIn (Process.finish name s elements) pipeline T)
      (els.map (Element.map s.canonical (Expr.map s.canonical))) parts) :
    List.Forall₂ (fun el part => ∀ guard input outputs, el = .split guard input outputs →
      SplitInstances s pairs elements pipeline guard input outputs part)
      els (parts.map Prod.snd) := by
  induction els generalizing parts with
  | nil =>
      rw [List.forall₂_nil_left_iff.mp hparts]
      exact .nil
  | cons el els ih =>
      rcases List.forall₂_cons_left_iff.mp hparts with ⟨part, rest, hpart, hrest, rfl⟩
      -- The names of the first element are fresh, and so are those of the rest.
      rw [List.flatMap_cons, List.forall_mem_append] at hfresh
      refine .cons ?_ (ih rest hfresh.2 hrest)
      rintro guard input outputs rfl
      exact splitInstances_of_placed h name pipeline T guard input outputs part hfresh.1 hpart

end Splits

/-- After any history of declarations and aliases, a process that is lowered has
    one part of its instances for each of its elements, and a split has its own
    instance and its sinks there. An output is kept, and then it is connected to
    the earliest channel of its wire and no sink reads that, exactly if some
    element reads the wire or its earliest channel is a port; any other output has
    a new wire, which one of the sinks reads. If all ports were declared before
    the other channels, it does not matter which channel of the wire is a port. -/
theorem split_outputs_kept_iff (name : String) (history : List ScopeChange)
    (elements : List (Element ChannelId Expr)) (s s' : Session) (out : LoweredProcess)
    (h : lowerProcess (.finish name (Scope.empty.attemptAll history) elements) s = .ok out s') :
    let scope := Scope.empty.attemptAll history
    let pairs := Scope.empty.connections [] history
    (∃ parts : List (List Instance), out.instances = parts.flatten ∧
      List.Forall₂ (fun el part => ∀ guard input outputs, el = .split guard input outputs →
        SplitInstances scope pairs elements s.pipeline guard input outputs part)
        elements parts) ∧
    ((∀ i j c d, scope.channel? i = some c → scope.channel? j = some d →
        c.kind.isPort = true → d.kind.isPort = false → i < j) →
      ∀ id, WireObserved scope pairs elements id ↔
        WireRead pairs elements id ∨ WireHasPort scope pairs id) := by
  intro scope pairs
  have hwired : scope.Wired pairs := Scope.wired_empty.attemptAll history
  refine ⟨?_, fun hfirst => wireObserved_iff_of_ports_first elements hwired hfirst⟩
  let p := Process.finish name scope elements
  -- Where everything is put is known from the call sites of the process.
  have hplaced : PlacedAs p s.pipeline s'.cache.bodies out :=
    lowerProcess_placed p s s' out h s'.cache.bodies (Bodies.Keeps.refl _)
  rcases parts_of_placeAll p s.pipeline s'.cache.bodies p.elements
    (servingWires p.scope p.reads) p.coined.channels out.instances List.length_mapIdx
    hplaced.length hplaced.instances with ⟨parts, hinsts, hnames, hparts⟩
  -- What lowering introduces is not declared, so no kept output has the wire of a sink.
  have hfresh : ∀ wire ∈ parts.flatMap Prod.fst,
      wire ∉ scope.names ∧ ∀ id, scope.nameOf id ≠ wire := by
    rw [← hnames]
    exact fun wire hwire =>
      ⟨p.draws_coined.fresh wire hwire, (p.coined_apart wire hwire).1⟩
  exact ⟨parts.map Prod.snd, by rw [hinsts, List.flatMap_def],
    splitInstances_of_parts hwired name s.pipeline s'.cache.bodies elements parts hfresh hparts⟩

/-- A local channel is declared before the output port that it is tied to. What
    the split sends to the port goes to a sink, and the other output, whose wire is
    only the port itself, is kept. -/
theorem split_output_of_late_port_is_sunk :
    let history : List ScopeChange := [.declare ⟨"t", .int 8, .internal⟩,
      .declare ⟨"a", .int 8, .port .input⟩, .declare ⟨"g", .int 1, .port .input⟩,
      .declare ⟨"o", .int 8, .port .output⟩, .declare ⟨"q", .int 8, .port .output⟩,
      .connect "t" "o"]
    let elements : List (Element ChannelId Expr) := [.split 2 1 [some 3, some 4]]
    let scope := Scope.empty.attemptAll history
    let pairs := Scope.empty.connections [] history
    let s : Session := { Session.start false .empty with
      metrics := [("unpipe_split2_1_8_", ⟨1, 2, 3, 4⟩), ("sink_8_", ⟨1, 1, 1, 1⟩)] }
    ∃ out s', lowerProcess (.finish "p" scope elements) s = .ok out s' ∧
      out.instances.map Instance.ports = [["g", "a", "sink0", "q"], ["sink0"]] ∧
      WireHasPort scope pairs 3 ∧ ¬ WireObserved scope pairs elements 3 ∧
      ∃ sunk, SplitOutput scope pairs elements sunk (some 3) "sink0" ∧
        SplitOutput scope pairs elements sunk (some 4) "q" := by
  intro history elements scope pairs s
  have hwired : scope.Wired pairs := Scope.wired_empty.attemptAll history
  have hrun : (match lowerProcess (.finish "p" scope elements) s with
      | .ok out _ => some (out.instances.map Instance.ports)
      | .error _ _ => none) = some [["g", "a", "sink0", "q"], ["sink0"]] := by decide +kernel
  have hport : WireHasPort scope pairs 3 := by
    refine ⟨3, ⟨"o", .int 8, .port .output, 0⟩, .refl 3, ?_, rfl⟩
    decide +kernel
  have hunobserved : ¬ WireObserved scope pairs elements 3 := by
    rw [← observes_canonical_iff elements hwired "p" 3]
    decide +kernel
  cases h : lowerProcess (.finish "p" scope elements) s with
  | error e s' =>
      rw [h] at hrun
      cases hrun
  | ok out s' =>
      rw [h] at hrun
      have hports := Option.some.inj hrun
      rcases (split_outputs_kept_iff "p" history elements s s' out h).1 with
        ⟨parts, hinsts, hparts⟩
      rcases List.forall₂_cons_left_iff.mp hparts with ⟨part, rest, hpart, hrest, rfl⟩
      rcases hpart 2 1 [some 3, some 4] rfl with
        ⟨own, sinks, guardWire, inputWire, wires, sunk, rfl, _, hown, hwires, _, _⟩
      rw [List.forall₂_nil_left_iff.mp hrest] at hinsts
      rw [hinsts, List.flatten_cons, List.cons_append, List.map_cons, hown] at hports
      cases (List.cons.inj (List.cons.inj (List.cons.inj hports).1).2).2
      rcases List.forall₂_cons_left_iff.mp hwires with ⟨_, _, hfirst, hrest, heq⟩
      cases heq
      rcases List.forall₂_cons_left_iff.mp hrest with ⟨_, _, hsecond, _, heq⟩
      cases heq
      exact ⟨out, s', rfl, Option.some.inj hrun, hport, hunobserved, sunk, hfirst, hsecond⟩

end DataflowCircuit
