import DataflowCircuit.Proofs.Netlist.Wiring

/-!
# Introduced Channels

Lowering introduces a channel where an output has nowhere to go: behind an output
of a split that nobody observes, where a sink takes the tokens, and in front of a
buffer. The channel is declared when the output is connected, its writer is
written some steps later, and its reader after that, and all three get its name
from a supply that every element of the process draws from.

That the three fit together is a statement about names: an introduced channel
stands at two ports of the lowered process and at no third. Ports are counted for
that. Every name at a port is that of a wire that serves a read, of a declared
channel, or of an introduced channel, and the names of introduced channels are
none of the others, because a wire that serves a read is a declared channel or
ends in a bracket. Among the call sites of an element an introduced channel stands
once behind an output and once in front of its reader, so a name is counted twice
as often as it was drawn, and no name is drawn twice.

An array of channels is declared under a name that is no name of a channel.

## Main definitions

* `Element.own?`: What the instance is that reads what an element reads.
* `Element.Joined`: The instances of an element join the channels behind its
  outputs.
* `Element.PlacedIn`: Instances for the call sites of an element.

## Theorems

* `Process.placements_count`: How often a name stands at a port.
* `Element.joined_of_isFor`: Where the name of an introduced channel stands.
* `parts_of_placeAll`: The instances of a process fall into parts, one for each
  element.
* `introduced_channels_are_linear`: Introduced channels are new, and each has one
  writer and one reader.
-/

namespace DataflowCircuit

section Outputs

/-- The number of channels that are introduced before an output. -/
def rank (outs : List Outlet) (j : Nat) : Nat :=
  ((outs.take j).filterMap Outlet.seam?).length

/-- An output that introduces a channel has the seam at its rank. -/
theorem seams_rank (outs : List Outlet) (j : Nat) (seam : Seam)
    (h : outs[j]? = some (.fresh seam)) :
    (outs.filterMap Outlet.seam?)[rank outs j]? = some seam := by
  induction outs generalizing j with
  | nil => cases h
  | cons out outs ih =>
      cases j with
      | zero =>
          cases h
          rfl
      | succ j =>
          cases out with
          | declared wire => exact ih j h
          | fresh seam' => exact ih j h

/-- An introduced channel stands behind its output. -/
theorem connect_rank (outs : List Outlet) (names : List String) (j : Nat) (seam : Seam)
    (name : String) (h : outs[j]? = some (.fresh seam))
    (hname : names[rank outs j]? = some name) :
    (connect outs names)[j]? = some ⟨name, seam.width⟩ := by
  induction outs generalizing j names with
  | nil => cases h
  | cons out outs ih =>
      cases j with
      | zero =>
          cases h
          cases names with
          | nil => cases hname
          | cons first names =>
              cases hname
              rfl
      | succ j =>
          -- A declared output takes no name from the list.
          cases out with
          | declared wire => exact ih names j h hname
          | fresh seam' =>
              cases names with
              | nil => cases hname
              | cons first names => exact ih names j h hname

/-- The declared channels that stand behind an output. -/
def Outlet.wires : Outlet → List Wire
  | .declared wire => [wire]
  | .fresh seam => seam.targets

/-- Behind outputs stand declared channels, and every introduced channel once. -/
theorem connect_count (outs : List Outlet) (names : List String) (name : String)
    (hlength : names.length = (outs.filterMap Outlet.seam?).length)
    (hwires : ∀ out ∈ outs, ∀ wire ∈ out.wires, wire.name ≠ name) :
    ((connect outs names).map Wire.name).count name = names.count name := by
  induction outs generalizing names with
  | nil =>
      rw [List.length_eq_zero_iff.mp hlength]
      rfl
  | cons out outs ih =>
      rw [List.forall_mem_cons] at hwires
      cases out with
      | declared wire =>
          rw [← ih names hlength hwires.2]
          exact List.count_cons_of_ne (hwires.1 wire List.mem_cons_self)
      | fresh seam =>
          cases names with
          | nil => cases hlength
          | cons first names =>
              rw [List.count_cons, ← ih names (Nat.succ.inj hlength) hwires.2]
              exact List.count_cons

/-- In front of what reads them stands every introduced channel once. -/
theorem readers_count (outs : List Outlet) (names : List String) (name : String)
    (hlength : names.length = (outs.filterMap Outlet.seam?).length)
    (hwires : ∀ out ∈ outs, ∀ wire ∈ out.wires, wire.name ≠ name) :
    ((List.zipWith Seam.placement (outs.filterMap Outlet.seam?) names).flatMap
      Placement.ports).count name = names.count name := by
  induction outs generalizing names with
  | nil =>
      rw [List.length_eq_zero_iff.mp hlength]
      rfl
  | cons out outs ih =>
      rw [List.forall_mem_cons] at hwires
      cases out with
      | declared wire => exact ih names hlength hwires.2
      | fresh seam =>
          cases names with
          | nil => cases hlength
          | cons first names =>
              -- What a reader drives is declared, so the name stands in front of it only.
              have hnone : (seam.targets.map Wire.name).count name = 0 := by
                refine List.count_eq_zero.mpr fun hmem => ?_
                rcases List.mem_map.mp hmem with ⟨wire, hwire, heq⟩
                exact hwires.1 wire hwire heq
              have hports : (seam.placement first).ports
                  = first :: seam.targets.map Wire.name := rfl
              have hseams : (Outlet.fresh seam :: outs).filterMap Outlet.seam?
                  = seam :: outs.filterMap Outlet.seam? := rfl
              rw [hseams, List.zipWith_cons_cons, List.flatMap_cons, List.count_append,
                ih names (Nat.succ.inj hlength) hwires.2, hports, List.count_cons,
                List.count_cons, hnone, Nat.zero_add, Nat.add_comm]

end Outputs

section Elements

variable (p : Process) (pipeline : Bool) (T : Bodies)

namespace Element

/-- The declared channels behind the outputs of an element. -/
theorem outputs_wires (el : Element ChannelId Expr) :
    ∀ out ∈ el.outputs p, ∀ wire ∈ out.wires, ∃ id, wire = p.scope.wire id := by
  -- A function writes its own output, behind a buffer or without one.
  have hfuncs : ∀ funcs : List (Func ChannelId Expr),
      ∀ out ∈ funcs.filterMap (Func.drives? p.scope), ∀ wire ∈ out.wires,
        ∃ id, wire = p.scope.wire id := by
    intro funcs out hout wire hwire
    rcases List.mem_filterMap.mp hout with ⟨f, _, hf⟩
    unfold Func.drives? at hf
    split at hf
    · cases hf
    · rcases Option.map_eq_some_iff.mp hf with ⟨id, _, rfl⟩
      cases hdepth : Lowering.bufferDepth? f <;> rw [hdepth] at hwire <;>
        exact ⟨id, List.mem_singleton.mp hwire⟩
  have hdeclared : ∀ id, ∀ wire ∈ (Outlet.declared (p.scope.wire id)).wires,
      ∃ id, wire = p.scope.wire id := fun id _ hwire => ⟨id, List.mem_singleton.mp hwire⟩
  cases el with
  | func f => exact hfuncs [f]
  | cluster funcs => exact hfuncs funcs
  | split guard input outputs =>
      intro out hout wire hwire
      rcases List.mem_map.mp hout with ⟨connected, _, rfl⟩
      cases hobserved : connected.filter p.observes with
      | some id =>
          rw [hobserved] at hwire
          exact hdeclared id wire hwire
      | none =>
          rw [hobserved] at hwire
          exact absurd hwire List.not_mem_nil
  | merge guard inputs out => exact List.forall_mem_singleton.mpr (hdeclared out)
  | mixer inputs out => exact List.forall_mem_singleton.mpr (hdeclared out)
  | arbiter inputs out ctrl =>
      exact List.forall_mem_cons.mpr
        ⟨hdeclared out, List.forall_mem_singleton.mpr (hdeclared ctrl)⟩
  | sink input => exact fun _ hout => absurd hout List.not_mem_nil

/-- A name that serves no read is no wire that is read. -/
theorem servedWires_count (s : Scope) (reads : List ChannelId) (ws : List String) (name : String)
    (hws : name ∉ ws) : ((s.servedWires reads ws).map Wire.name).count name = 0 := by
  refine List.count_eq_zero.mpr fun hmem => hws ?_
  unfold Scope.servedWires at hmem
  rw [List.map_zipWith, ← List.map_uncurry_zip_eq_zipWith] at hmem
  rcases List.mem_map.mp hmem with ⟨⟨id, wire⟩, hpair, rfl⟩
  exact (List.of_mem_zip hpair).2

/-- Sources write declared channels only. -/
theorem sources_count (s : Scope) (funcs : List (Func ChannelId Expr)) (name : String)
    (hunnamed : ∀ id, s.nameOf id ≠ name) :
    ((funcs.filterMap (Func.sourcePlacement? s)).flatMap Placement.ports).count name = 0 := by
  refine List.count_eq_zero.mpr fun hmem => ?_
  rcases List.mem_flatMap.mp hmem with ⟨q, hq, hport⟩
  rcases List.mem_filterMap.mp hq with ⟨f, _, hf⟩
  unfold Func.sourcePlacement? at hf
  rcases Option.bind_eq_some_iff.mp hf with ⟨component, _, hf⟩
  rcases Option.bind_eq_some_iff.mp hf with ⟨out, _, hf⟩
  cases hf
  exact hunnamed out (List.mem_singleton.mp hport).symm

/-- Among the call sites of an element, the name of no channel of the process
    stands at twice as many ports as it was drawn. -/
theorem placements_count (el : Element ChannelId Expr) (ws names : List String) (name : String)
    (hlength : names.length = (el.seams p).length)
    (hstated : ∀ clustered funcs, el.members? = some (clustered, funcs) →
      el.unit? p.scope = none → el.outputs p = [])
    (hunnamed : ∀ id, p.scope.nameOf id ≠ name) (hws : name ∉ ws) :
    ((el.placements p pipeline T ws names).flatMap Placement.ports).count name
      = 2 * names.count name := by
  -- The name is that of no channel of the process, so no declared wire has it.
  have hwires : ∀ out ∈ el.outputs p, ∀ wire ∈ out.wires, wire.name ≠ name := by
    intro out hout wire hwire
    rcases el.outputs_wires p out hout wire hwire with ⟨id, rfl⟩
    exact hunnamed id
  have hreads := servedWires_count p.scope el.reads ws name hws
  have hwrites := connect_count (el.outputs p) names name hlength hwires
  have hreaders := readers_count (el.outputs p) names name hlength hwires
  -- The instance of the element writes each introduced channel once, and what is
  -- introduced with a channel reads it once.
  have hown : ∀ (c : Component) (reads : List Wire), (reads.map Wire.name).count name = 0 →
      ([(⟨c, reads, connect (el.outputs p) names⟩ : Placement)].flatMap Placement.ports).count
        name = names.count name := by
    intro c reads hnone
    rw [List.flatMap_singleton, Placement.ports, List.map_append, List.count_append, hnone,
      hwrites, Nat.zero_add]
  -- Written once and read once makes two.
  have htwice : ∀ own : List Placement, (own.flatMap Placement.ports).count name
      = names.count name → ((own ++ List.zipWith Seam.placement (el.seams p) names).flatMap
        Placement.ports).count name = 2 * names.count name := by
    intro own h
    rw [List.flatMap_append, List.count_append, h, Nat.two_mul]
    exact congrArg (_ + ·) hreaders
  unfold placements
  cases hmembers : el.members? with
  | some pair =>
      refine htwice _ ?_
      rw [List.flatMap_append, List.count_append, sources_count p.scope pair.2 name hunnamed,
        Nat.zero_add]
      cases hunit : el.unit? p.scope with
      | some fu => exact hown _ _ hreads
      | none =>
          -- Without a unit there is no output, and no channel is introduced.
          have hseams : el.seams p = [] := by
            unfold seams
            rw [hstated pair.1 pair.2 hmembers hunit]
            rfl
          rw [hseams] at hlength
          rw [List.length_eq_zero_iff.mp hlength]
          rfl
  | none =>
      refine htwice _ ?_
      cases el with
      | split guard input outputs =>
          refine hown _ _ ?_
          rw [List.map_reverse, List.count_reverse]
          exact hreads
      | merge guard inputs out => exact hown _ _ hreads
      | mixer inputs out => exact hown _ _ hreads
      | arbiter inputs out ctrl => exact hown _ _ hreads
      | sink input => exact hown _ _ hreads
      | func f => cases hmembers
      | cluster funcs => cases hmembers

end Element

/-- So it is among the call sites of elements in order. -/
theorem placeAll_count (els : List (Element ChannelId Expr)) (ws names : List String)
    (name : String) (hlength : names.length = (els.flatMap (Element.seams p)).length)
    (hstated : ∀ el ∈ els, ∀ clustered funcs, el.members? = some (clustered, funcs) →
      el.unit? p.scope = none → el.outputs p = [])
    (hunnamed : ∀ id, p.scope.nameOf id ≠ name) (hws : name ∉ ws) :
    ((placeAll p pipeline T els ws names).flatMap Placement.ports).count name
      = 2 * names.count name := by
  induction els generalizing ws names with
  | nil =>
      rw [List.length_eq_zero_iff.mp hlength]
      rfl
  | cons el els ih =>
      rw [List.forall_mem_cons] at hstated
      rw [List.flatMap_cons, List.length_append] at hlength
      -- The element and the rest share the names out between them.
      have hfirst := el.placements_count p pipeline T (ws.take el.reads.length)
        (names.take (el.seams p).length) name (by rw [List.length_take]; omega) hstated.1 hunnamed
        fun hmem => hws (List.mem_of_mem_take hmem)
      have hrest := ih (ws.drop el.reads.length) (names.drop (el.seams p).length)
        (by rw [List.length_drop]; omega) hstated.2 fun hmem => hws (List.mem_of_mem_drop hmem)
      unfold placeAll
      rw [List.flatMap_append, List.count_append, hfirst, hrest, ← Nat.mul_add,
        ← List.count_append, List.take_append_drop]

/-- An introduced channel is no wire that serves a read and no declared channel. -/
theorem Process.coined_apart (name : String) (h : name ∈ p.coined.channels) :
    (∀ id, p.scope.nameOf id ≠ name) ∧ name ∉ servingWires p.scope p.reads := by
  have hfresh := p.draws_coined
  -- A fresh name is none of the declared ones, nor what stands for a missing channel.
  have hnamed : ∀ id, p.scope.nameOf id ≠ name := by
    intro id heq
    unfold Scope.nameOf at heq
    cases hchannel : p.scope.channel? id with
    | some c =>
        rw [hchannel] at heq
        refine hfresh.fresh name h ?_
        rw [← heq]
        exact List.mem_map_of_mem (List.mem_of_getElem? hchannel)
    | none =>
        rw [hchannel] at heq
        rcases hfresh.ends name h with ⟨c, hlast, hc⟩
        rw [← heq] at hlast
        cases hlast
        rcases hc with hc | hc <;> cases hc
  refine ⟨hnamed, fun hmem => ?_⟩
  unfold servingWires at hmem
  rcases List.mem_mapIdx.mp hmem with ⟨j, hj, heq⟩
  unfold servingWire at heq
  split at heq
  · -- An output of a copy ends in a bracket.
    rcases hfresh.ends name h with ⟨c, hlast, hc⟩
    rw [← heq, ← List.head?_reverse, copyOutput_reverse] at hlast
    cases hlast
    rcases hc with hc | hc <;> cases hc
  · exact hnamed _ heq

/-- An introduced channel stands at two ports of the process. -/
theorem Process.placements_count (hlength : p.coined.channels.length = p.seams.length)
    (hstated : ∀ el ∈ p.elements, ∀ clustered funcs, el.members? = some (clustered, funcs) →
      el.unit? p.scope = none → el.outputs p = [])
    (name : String) (h : name ∈ p.coined.channels) :
    ((p.placements pipeline T).flatMap Placement.ports).count name = 2 := by
  rcases p.coined_apart name h with ⟨hnamed, hws⟩
  -- A copy reads a declared channel and nothing else.
  have hcopies : (p.copyPlacements.flatMap Placement.ports).count name = 0 := by
    refine List.count_eq_zero.mpr fun hmem => ?_
    rcases List.mem_flatMap.mp hmem with ⟨q, hq, hport⟩
    rcases List.mem_map.mp hq with ⟨id, _, rfl⟩
    exact hnamed id (List.mem_singleton.mp hport).symm
  have hown := placeAll_count p pipeline T p.elements (servingWires p.scope p.reads)
    p.coined.channels name hlength hstated hnamed hws
  unfold placements ownPlacements
  rw [List.flatMap_append, List.count_append, hcopies, hown,
    List.count_eq_one_of_mem p.draws_coined.nodup h]

end Elements

section Joining

/-- Instances have the ports of their call sites. -/
theorem ports_of_isFor {qs : List Placement} {insts : List Instance}
    (h : List.Forall₂ Placement.IsFor qs insts) :
    insts.flatMap Instance.ports = qs.flatMap Placement.ports := by
  induction h with
  | nil => rfl
  | cons hinst _ ih => rw [List.flatMap_cons, List.flatMap_cons, hinst.2, ih]

/-- What is related to an element of a list stands at its position. -/
theorem forall₂_getElem? {α β : Type} {R : α → β → Prop} {xs : List α} {ys : List β}
    (h : List.Forall₂ R xs ys) (i : Nat) (x : α) (hx : xs[i]? = some x) :
    ∃ y, ys[i]? = some y ∧ R x y := by
  induction h generalizing i with
  | nil => cases hx
  | @cons x' y xs ys hxy _ ih =>
      cases i with
      | zero =>
          cases hx
          exact ⟨y, rfl, hxy⟩
      | succ i => exact ih i hx

variable (p : Process) (pipeline : Bool) (T : Bodies)

/-- What the instance is that reads what an element reads. An element whose
    functions are all constant has none. -/
def Element.own? (el : Element ChannelId Expr) : Option Component :=
  match el.members? with
  | some _ => (el.unit? p.scope).map fun fu => .unit (fu.under T)
  | none => (el.routes p pipeline).head?

/-- Among the call sites of an element with outputs, its own stands behind the
    sources and in front of what reads the introduced channels. -/
theorem Element.placements_own (el : Element ChannelId Expr) (ws names : List String)
    (hws : ws.length = el.reads.length) (hstated : ∀ clustered funcs,
      el.members? = some (clustered, funcs) → el.unit? p.scope = none → el.outputs p = [])
    (houts : el.outputs p ≠ []) :
    ∃ sources own reads, el.own? p pipeline T = some own ∧ reads.length = el.reads.length ∧
      el.placements p pipeline T ws names = sources ++
        ⟨own, reads, connect (el.outputs p) names⟩ ::
          List.zipWith Seam.placement (el.seams p) names := by
  have hreads : (p.scope.servedWires el.reads ws).length = el.reads.length := by
    unfold Scope.servedWires
    rw [List.length_zipWith, hws, Nat.min_self]
  unfold own? placements
  cases hmembers : el.members? with
  | some pair =>
      cases hunit : el.unit? p.scope with
      | none => exact absurd (hstated pair.1 pair.2 hmembers hunit) houts
      | some fu =>
          refine ⟨pair.2.filterMap (Func.sourcePlacement? p.scope), .unit (fu.under T), _, rfl,
            hreads, ?_⟩
          simp only [Option.toList_some, List.map_cons, List.map_nil, List.append_assoc,
            List.singleton_append]
  | none =>
      cases el with
      | split guard input outputs => exact ⟨[], _, _, rfl, List.length_reverse.trans hreads, rfl⟩
      | merge guard inputs out => exact ⟨[], _, _, rfl, hreads, rfl⟩
      | mixer inputs out => exact ⟨[], _, _, rfl, hreads, rfl⟩
      | arbiter inputs out ctrl => exact ⟨[], _, _, rfl, hreads, rfl⟩
      | sink input => exact ⟨[], _, _, rfl, hreads, rfl⟩
      | func f => cases hmembers
      | cluster funcs => cases hmembers

/-- The instances `part.2` of an element join the channels with the names
    `part.1` that it introduces. The channel behind an output stands at that
    output of the element's own instance, which lists what it reads first, and
    in front of the instance that reads it, and nowhere else in the process. -/
structure Element.Joined (out : LoweredProcess) (el : Element ChannelId Expr)
    (part : List String × List Instance) : Prop where
  length : part.1.length = (el.seams p).length
  joined : ∀ (j : Nat) (seam : Seam), (el.outputs p)[j]? = some (.fresh seam) →
    ∃ (name : String) (own : Component) (i k : Nat) (writer reader : Instance),
      part.1[rank (el.outputs p) j]? = some name ∧ el.own? p pipeline T = some own ∧
        i < k ∧ part.2[i]? = some writer ∧ part.2[k]? = some reader ∧
        writer.key = own.key ∧ writer.ports[el.reads.length + j]? = some name ∧
        reader.key = seam.reader.key ∧ reader.ports = name :: seam.targets.map Wire.name ∧
        (out.sites.flatMap Instance.ports).count name = 2

/-- Instances for the call sites of an element join its channels. -/
theorem Element.joined_of_isFor (out : LoweredProcess) (el : Element ChannelId Expr)
    (ws names : List String) (insts : List Instance) (hws : ws.length = el.reads.length)
    (hlength : names.length = (el.seams p).length) (hstated : ∀ clustered funcs,
      el.members? = some (clustered, funcs) → el.unit? p.scope = none → el.outputs p = [])
    (hfor : List.Forall₂ Placement.IsFor (el.placements p pipeline T ws names) insts)
    (hcount : ∀ name ∈ names, (out.sites.flatMap Instance.ports).count name = 2) :
    el.Joined p pipeline T out (names, insts) := by
  refine ⟨hlength, fun j seam hj => ?_⟩
  have houts : el.outputs p ≠ [] := by
    intro hnil
    rw [hnil] at hj
    cases hj
  rcases el.placements_own p pipeline T ws names hws hstated houts with
    ⟨sources, own, reads, hown, hreads, hplacements⟩
  -- The name and the seam stand at the same rank.
  have hseam : (el.seams p)[rank (el.outputs p) j]? = some seam :=
    seams_rank (el.outputs p) j seam hj
  have hlt : rank (el.outputs p) j < names.length := by
    rw [hlength]
    exact (List.getElem?_eq_some_iff.mp hseam).1
  have hname : names[rank (el.outputs p) j]? = some names[rank (el.outputs p) j] :=
    List.getElem?_eq_getElem hlt
  -- The writer comes first behind the sources, and what reads the channel follows it
  -- at the rank of the output.
  have hwriting : (el.placements p pipeline T ws names)[sources.length]?
      = some ⟨own, reads, connect (el.outputs p) names⟩ := by
    rw [hplacements, List.getElem?_append_right (Nat.le_refl _), Nat.sub_self]
    rfl
  have hreading :
      (el.placements p pipeline T ws names)[sources.length + (rank (el.outputs p) j + 1)]?
        = some (seam.placement names[rank (el.outputs p) j]) := by
    rw [hplacements, List.getElem?_append_right (Nat.le_add_right _ _), Nat.add_sub_cancel_left,
      List.getElem?_cons_succ, List.getElem?_zipWith, hname, hseam]
  rcases forall₂_getElem? hfor _ _ hwriting with ⟨writer, hwriter, hwriterKey, hwriterPorts⟩
  rcases forall₂_getElem? hfor _ _ hreading with ⟨reader, hreader, hreaderKey, hreaderPorts⟩
  refine ⟨_, own, _, _, writer, reader, hname, hown, by omega, hwriter, hreader, hwriterKey, ?_,
    hreaderKey, hreaderPorts, hcount _ (List.getElem_mem hlt)⟩
  rw [hwriterPorts, Placement.ports, List.map_append, List.getElem?_append_right (by
    rw [List.length_map, hreads]
    exact Nat.le_add_right _ _), List.length_map, hreads, Nat.add_sub_cancel_left,
    List.getElem?_map, connect_rank (el.outputs p) names j seam _ hj hname]
  rfl

/-- The instances `part.2` are for the call sites of an element that introduces
    channels with the names `part.1`. -/
structure Element.PlacedIn (el : Element ChannelId Expr) (part : List String × List Instance) :
    Prop where
  length : part.1.length = (el.seams p).length
  placed : ∃ ws : List String, ws.length = el.reads.length ∧
    List.Forall₂ Placement.IsFor (el.placements p pipeline T ws part.1) part.2

/-- Instances for the call sites of elements fall into parts, one for each
    element. -/
theorem parts_of_placeAll (els : List (Element ChannelId Expr)) (ws names : List String)
    (insts : List Instance) (hws : ws.length = (els.flatMap Element.reads).length)
    (hlength : names.length = (els.flatMap (Element.seams p)).length)
    (hfor : List.Forall₂ Placement.IsFor (placeAll p pipeline T els ws names) insts) :
    ∃ parts : List (List String × List Instance), insts = parts.flatMap Prod.snd ∧
      names = parts.flatMap Prod.fst ∧
      List.Forall₂ (Element.PlacedIn p pipeline T) els parts := by
  induction els generalizing ws names insts with
  | nil =>
      refine ⟨[], ?_, List.length_eq_zero_iff.mp hlength, .nil⟩
      exact List.forall₂_nil_left_iff.mp hfor
  | cons el els ih =>
      rw [List.flatMap_cons, List.length_append] at hws hlength
      unfold placeAll at hfor
      -- The element takes its wires, names and instances from the front of the lists.
      have hfirst := List.forall₂_take (el.placements p pipeline T (ws.take el.reads.length)
        (names.take (el.seams p).length)).length hfor
      have hrest := List.forall₂_drop (el.placements p pipeline T (ws.take el.reads.length)
        (names.take (el.seams p).length)).length hfor
      rw [List.take_left] at hfirst
      rw [List.drop_left] at hrest
      have hone : el.PlacedIn p pipeline T (names.take (el.seams p).length, insts.take _) :=
        ⟨by rw [List.length_take]; omega, ws.take el.reads.length,
          by rw [List.length_take]; omega, hfirst⟩
      rcases ih _ _ _ (by rw [List.length_drop]; omega) (by rw [List.length_drop]; omega)
        hrest with ⟨parts, hinsts, hnames, hparts⟩
      refine ⟨_ :: parts, ?_, ?_, .cons hone hparts⟩
      · rw [List.flatMap_cons, ← hinsts, List.take_append_drop]
      · rw [List.flatMap_cons, ← hnames, List.take_append_drop]

/-- Instances for the call sites of elements join their channels, element by
    element. -/
theorem joined_of_parts (out : LoweredProcess) (els : List (Element ChannelId Expr))
    (parts : List (List String × List Instance))
    (hstated : ∀ el ∈ els, ∀ clustered funcs, el.members? = some (clustered, funcs) →
      el.unit? p.scope = none → el.outputs p = [])
    (hparts : List.Forall₂ (Element.PlacedIn p pipeline T) els parts)
    (hcount : ∀ name ∈ parts.flatMap Prod.fst,
      (out.sites.flatMap Instance.ports).count name = 2) :
    List.Forall₂ (Element.Joined p pipeline T out) els parts := by
  induction hparts with
  | nil => exact .nil
  | @cons el part els parts hpart _ ih =>
      rw [List.forall_mem_cons] at hstated
      rw [List.flatMap_cons, List.forall_mem_append] at hcount
      rcases hpart.placed with ⟨ws, hws, hfor⟩
      exact .cons (el.joined_of_isFor p pipeline T out ws part.1 part.2 hws hpart.length
        hstated.1 hfor hcount.1) (ih hstated.2 hcount.2)

end Joining

/-- A name that is declared is that of a channel, or it is that of an array and
    ends in a bracket. -/
theorem grouped_named (s : Scope) (ids : List ChannelId) :
    ∀ entry ∈ Process.grouped s ids,
      (∃ id, entry.1 = s.nameOf id) ∨ entry.1.toList.getLast? = some ']' := by
  intro entry hentry
  rcases List.mem_filterMap.mp hentry with ⟨⟨name, position⟩, hgroup, hchannel⟩
  rcases Option.bind_eq_some_iff.mp hchannel with ⟨_, _, hchannel⟩
  rcases Option.bind_eq_some_iff.mp hchannel with ⟨c, _, hpure⟩
  cases hpure
  rcases List.mem_filterMap.mp hgroup with ⟨⟨member, index⟩, hmember, hat⟩
  change groupAt _ member index = _ at hat
  unfold groupAt at hat
  -- A channel that is no member of an array is declared under its own name.
  cases hbase : arrayBase? member with
  | none =>
      rw [hbase] at hat
      cases hat
      rcases List.mem_map.mp (List.fst_mem_of_mem_zipIdx hmember) with ⟨id, _, hid⟩
      exact Or.inl ⟨id, hid.symm⟩
  | some base =>
      rw [hbase] at hat
      simp only at hat
      split at hat
      · cases hat
        refine Or.inr ?_
        rw [String.toList_append, List.getLast?_append_of_ne_nil _ (by decide)]
        rfl
      · cases hat

/-- So it is with everything that a process declares. -/
theorem Process.declarations_named (p : Process) :
    ∀ name ∈ p.declarations.ports.map PortDecl.name ++ p.declarations.channels.map ChanDecl.name,
      (∃ id, name = p.scope.nameOf id) ∨ name.toList.getLast? = some ']' := by
  intro name hname
  rcases List.mem_append.mp hname with hport | hlocal
  · rcases List.mem_map.mp hport with ⟨decl, hdecl, rfl⟩
    rcases List.mem_filterMap.mp hdecl with ⟨entry, hentry, hkind⟩
    have hnamed := grouped_named p.scope p.ports entry hentry
    simp only at hkind
    split at hkind
    · cases hkind
      exact hnamed
    · cases hkind
  · rcases List.mem_map.mp hlocal with ⟨decl, hdecl, rfl⟩
    rcases List.mem_map.mp hdecl with ⟨entry, hentry, rfl⟩
    exact grouped_named p.scope p.locals entry hentry

/-- Introduced channels are new and used linearly. The channels of a lowered
    process are those that it declares, and then one for every output of a split
    that nobody observes and one for every output of a function that has a buffer
    of positive depth, in the order of the elements and their outputs. Their
    names are distinct and none of them is declared. Each stands at its output of
    the instance of its element and in front of one sink or buffer of its width,
    and at no other port of the process. -/
theorem introduced_channels_are_linear (p : Process) (s s' : Session) (out : LoweredProcess)
    (h : lowerProcess p s = .ok out s') :
    ∃ parts : List (List String × List Instance),
      out.instances = parts.flatMap Prod.snd ∧
        out.channels = p.declarations.channels ++
          List.zipWith Seam.declaration p.seams (parts.flatMap Prod.fst) ∧
        (parts.flatMap Prod.fst).length = p.seams.length ∧ (parts.flatMap Prod.fst).Nodup ∧
        (∀ name ∈ parts.flatMap Prod.fst, name ∉ p.scope.names ∧
          name ∉ p.declarations.ports.map PortDecl.name ++
            p.declarations.channels.map ChanDecl.name) ∧
        List.Forall₂ (Element.Joined p s.pipeline s'.cache.bodies out) p.elements parts := by
  have hplaced := lowerProcess_placed p s s' out h s'.cache.bodies (Bodies.Keeps.refl _)
  have hfresh := p.draws_coined
  have hports : out.sites.flatMap Instance.ports
      = (p.placements s.pipeline s'.cache.bodies).flatMap Placement.ports :=
    ports_of_isFor hplaced.sites
  have hcount : ∀ name ∈ p.coined.channels, (out.sites.flatMap Instance.ports).count name = 2 := by
    intro name hname
    rw [hports]
    exact p.placements_count s.pipeline s'.cache.bodies hplaced.length hplaced.stated name hname
  rcases parts_of_placeAll p s.pipeline s'.cache.bodies p.elements
    (servingWires p.scope p.reads) p.coined.channels out.instances List.length_mapIdx
    hplaced.length hplaced.instances with ⟨parts, hinsts, hnames, hparts⟩
  refine ⟨parts, hinsts, ?_, ?_, ?_, ?_, joined_of_parts p s.pipeline s'.cache.bodies out
    p.elements parts hplaced.stated hparts (by rw [← hnames]; exact hcount)⟩
  · rw [hplaced.channels, hnames]
  · rw [← hnames]
    exact hplaced.length
  · rw [← hnames]
    exact hfresh.nodup
  · rw [← hnames]
    intro name hname
    refine ⟨hfresh.fresh name hname, fun hdeclared => ?_⟩
    -- What is declared is a channel, or an array and ends in a bracket.
    rcases p.declarations_named name hdeclared with ⟨id, hid⟩ | hlast
    · exact (p.coined_apart name hname).1 id hid.symm
    · rcases hfresh.ends name hname with ⟨c, hc, hcases⟩
      rw [hlast] at hc
      cases hc
      rcases hcases with hcase | hcase <;> cases hcase

/-- A split with an output that is not connected and one that nobody reads, and a
    function with a buffer, next to a declared channel whose name a sink would
    get. -/
theorem introduced_channels_of_split_and_buffer :
    let p : Process := ⟨"p", ⟨[⟨"a", .int 8, .port .input, 0⟩, ⟨"g", .int 2, .port .input, 1⟩,
        ⟨"sink0", .int 8, .internal, 2⟩, ⟨"u", .int 8, .internal, 3⟩,
        ⟨"o", .int 8, .port .output, 4⟩]⟩,
      [.split 1 0 [none, some 3, some 2], .func ⟨.var 2, some ⟨2, none⟩, some 4⟩]⟩
    let s : Session := { Session.start false .empty with
      metrics := [("unpipe_split3_2_8_", ⟨1, 1, 1, 1⟩), ("sink_8_", ⟨1, 1, 1, 1⟩),
        ("buffer_2_8_", ⟨1, 1, 1, 1⟩)] }
    ∃ out s', lowerProcess p s = .ok out s' ∧
      out.channels = [⟨"sink0", .int 8⟩, ⟨"u", .int 8⟩, ⟨"sink1", .int 8⟩, ⟨"sink2", .int 8⟩,
        ⟨"o_buf", .int 8⟩] ∧
      out.instances.map Instance.ports = [["g", "a", "sink1", "sink2", "sink0"], ["sink1"],
        ["sink2"], ["sink0", "o_buf"], ["o_buf", "o"]] ∧
      ∃ parts : List (List String × List Instance),
        out.instances = parts.flatMap Prod.snd ∧ (parts.flatMap Prod.fst).Nodup ∧
          List.Forall₂ (Element.Joined p s.pipeline s'.cache.bodies out) p.elements parts := by
  intro p s
  have hrun : (match lowerProcess p s with
      | .ok out _ => some (out.channels, out.instances.map Instance.ports)
      | .error _ _ => none) = some ([⟨"sink0", .int 8⟩, ⟨"u", .int 8⟩, ⟨"sink1", .int 8⟩,
        ⟨"sink2", .int 8⟩, ⟨"o_buf", .int 8⟩], [["g", "a", "sink1", "sink2", "sink0"], ["sink1"],
        ["sink2"], ["sink0", "o_buf"], ["o_buf", "o"]]) := by decide +kernel
  cases h : lowerProcess p s with
  | error e s' =>
      rw [h] at hrun
      cases hrun
  | ok out s' =>
      rw [h] at hrun
      rcases Prod.mk.inj (Option.some.inj hrun) with ⟨hchannels, hports⟩
      rcases introduced_channels_are_linear p s s' out h with
        ⟨parts, hinsts, _, _, hnodup, _, hjoined⟩
      exact ⟨out, s', rfl, hchannels, hports, parts, hinsts, hnodup, hjoined⟩

end DataflowCircuit
