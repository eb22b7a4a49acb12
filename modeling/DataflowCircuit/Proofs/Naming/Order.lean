import DataflowCircuit.Proofs.Lowering.Processes
import DataflowCircuit.Proofs.Naming.Names
import Mathlib.Data.List.Basic

/-!
# Template Names and the Order of Processes

Processes of a run share one table of bodies, and the first body under a name
keeps it. What a process is given can therefore depend on what was lowered
before it, and this file says exactly when it does.

The name that the operations of a unit spell is meant to tell units apart, so
that the table never has to. It does not always: a member of a cluster that
only forwards a channel is spelled the same whichever channel it forwards. Two
clusters that forward different channels share a name, and the one that comes
second is renamed.

A table of bodies says of each name who came first under it. Renaming adds
entries under hashed names, which no unit spells, because a unit name ends in
a width or a position and a hashed name in a fingerprint. So after a run from
nothing the table answers a unit name with the first body under it in the
order of the run, `firstBody`, and two orders give every process the same
instances exactly if they agree on that.

## Main definitions

* `Process.units`: The functional units of a process.
* `firstBody`: The body that comes first under a name.
* `Bodies.noteUnits`: The table after units were named.

## Theorems

* `lookup_noteUnits`: The table answers with the first body.
* `lowerAll_ok`: The parts of a run over processes.
* `firstBody_of_same_instances`: Equal instances make equal first bodies.
* `order_irrelevant_iff`: When the order of processes does not matter.
* `forwarding_clusters_depend_on_order`: Two clusters for which it does.
-/

namespace DataflowCircuit

/-- The functional units of a process, under the names that their operations
    spell. -/
def Process.units (p : Process) : List FunctionalUnit :=
  p.elements.filterMap (Element.unit? p.scope)

/-- The fingerprint of the body that comes first under a name. -/
def firstBody (units : List FunctionalUnit) (name : String) : Option UInt64 :=
  (units.find? (·.name = name)).map fun fu => Text.fingerprint fu.body

section Table

/-- The table after units were named in order. -/
def Bodies.noteUnits (T : Bodies) (units : List FunctionalUnit) : Bodies :=
  units.foldl (fun T fu => T.note fu.name (Text.fingerprint fu.body)) T

/-- Is a name one that a renamed unit could have? -/
def IsHashed (name : String) : Prop :=
  ∃ plain fp, name = Cache.hashedName plain fp

/-- Naming a unit answers its name from then on, if nothing did before. -/
theorem Bodies.lookup_note (T : Bodies) (name unit : String) (fp : UInt64)
    (hname : ¬ IsHashed name) :
    (T.note unit fp).lookup name
      = (T.lookup name).or (if unit = name then some fp else none) := by
  unfold Bodies.note
  cases hunit : T.lookup unit with
  | none =>
      simp only []
      rw [Bodies.lookup_add]
      by_cases heq : name = unit
      · rw [if_pos heq, if_pos heq.symm, heq, hunit, Option.getD_none, Option.none_or]
      · rw [if_neg heq, if_neg (Ne.symm heq), Option.or_none]
  | some before =>
      -- A name that has an entry keeps it, so the answer is the old one.
      have hold : (T.lookup name).or (if unit = name then some fp else none)
          = T.lookup name := by
        by_cases heq : unit = name
        · rw [← heq, hunit, Option.some_or]
        · rw [if_neg heq, Option.or_none]
      rw [hold]
      by_cases hfp : before = fp
      · simp only [if_pos hfp]
      · simp only [if_neg hfp]
        rw [Bodies.lookup_add, if_neg fun heq => hname ⟨unit, fp, heq⟩]

/-- After units were named, a name is answered as before or with the first body
    under it. -/
theorem Bodies.lookup_noteUnits (T : Bodies) (units : List FunctionalUnit) (name : String)
    (hname : ¬ IsHashed name) :
    (T.noteUnits units).lookup name = (T.lookup name).or (firstBody units name) := by
  induction units generalizing T with
  | nil => exact (Option.or_none).symm
  | cons fu units ih =>
      -- The table after the first unit is the one that the others start from.
      have hrest := ih (T.note fu.name (Text.fingerprint fu.body))
      rw [Bodies.lookup_note T name fu.name _ hname, Option.or_assoc] at hrest
      have hfirst : firstBody (fu :: units) name
          = (if fu.name = name then some (Text.fingerprint fu.body) else none).or
              (firstBody units name) := by
        unfold firstBody
        by_cases heq : fu.name = name
        · rw [List.find?_cons_of_pos (by simpa using heq), if_pos heq, Option.map_some,
            Option.some_or]
        · rw [List.find?_cons_of_neg (by simpa using heq), if_neg heq, Option.none_or]
      rw [hfirst]
      exact hrest

/-- Only the units of sites change the table. -/
theorem foldl_note_eq (T : Bodies) (sites : List Site) :
    sites.foldl Site.note T = T.noteUnits (sites.filterMap Site.unit?) := by
  induction sites generalizing T with
  | nil => rfl
  | cons site sites ih =>
      rcases site with ⟨c, label, ports⟩
      cases c with
      | unit fu => exact ih (T.note fu.name (Text.fingerprint fu.body))
      | _ => exact ih T

/-- The units that a trace of elements writes are those of the elements, and
    none has a hashed name. -/
theorem traced_units {s : Scope} {observed : ChannelId → Bool} {els : List (Element ChannelId Expr)}
    {τ : Trace} (h : Lowering.Traced s observed els τ) :
    τ.sites.filterMap Site.unit? = els.filterMap (Element.unit? s) ∧
      ∀ fu ∈ els.filterMap (Element.unit? s), ¬ IsHashed fu.name := by
  induction h with
  | nil => exact ⟨rfl, fun fu hfu => absurd hfu List.not_mem_nil⟩
  | cons el els τ τ' hel hrest ih =>
      rcases ih with ⟨hunits, hnames⟩
      refine ⟨?_, fun fu hfu => ?_⟩
      · rw [Trace.sites_append, List.filterMap_append, hel.units, hunits, List.filterMap_cons]
        cases el.unit? s with
        | none => rfl
        | some fu => rfl
      · rcases List.mem_filterMap.mp hfu with ⟨el', hel', hunit⟩
        rcases List.mem_cons.mp hel' with rfl | hel'
        -- The name of a unit is closed by a width or a position.
        · rcases hel.closed fu hunit with ⟨ts, t, hname, hends⟩
          rintro ⟨plain, fp, hhash⟩
          rw [hname] at hhash
          exact unitName_ne_hashedName ts t plain fp hends hhash
        · exact hnames fu (List.mem_filterMap.mpr ⟨el', hel', hunit⟩)

end Table

section Runs

/-- Naming units takes no entry away. -/
theorem Bodies.noteUnits_keeps (T : Bodies) (units : List FunctionalUnit) :
    T.Keeps (T.noteUnits units) := by
  induction units generalizing T with
  | nil => exact Bodies.Keeps.refl T
  | cons fu units ih => exact (Bodies.note_keeps T _ _).trans (ih _)

/-- Units are named in the order of the list. -/
theorem Bodies.noteUnits_append (T : Bodies) (us vs : List FunctionalUnit) :
    T.noteUnits (us ++ vs) = (T.noteUnits us).noteUnits vs :=
  List.foldl_append

/-- The parts of a run over processes: each was lowered from some session of
    the run, and the table at the end has seen the units of all. -/
structure LoweredAll (ps : Program) (s s' : Session) (outs : List LoweredProcess) : Prop where
  length : outs.length = ps.length
  pipeline : s'.pipeline = s.pipeline
  bodies : s'.cache.bodies = Bodies.noteUnits s.cache.bodies (ps.flatMap Process.units)
  names : ∀ fu ∈ ps.flatMap Process.units, ¬ IsHashed fu.name
  parts : ∀ (i : Nat) (p : Process) (out : LoweredProcess), ps[i]? = some p →
    outs[i]? = some out → ∃ t t', lowerProcess p t = .ok out t' ∧ t.pipeline = s.pipeline ∧
      Bodies.Keeps t'.cache.bodies s'.cache.bodies

/-- A run over processes that ends well has such parts. -/
theorem lowerAll_ok (ps : Program) (s s' : Session) (outs : List LoweredProcess)
    (h : lowerAll ps s = .ok outs s') : LoweredAll ps s s' outs := by
  induction ps generalizing s outs with
  | nil =>
      rcases pure_ok_iff.mp h with ⟨rfl, rfl⟩
      refine ⟨rfl, rfl, rfl, fun fu hfu => absurd hfu List.not_mem_nil, ?_⟩
      intro i p out hp _
      rw [List.getElem?_nil] at hp
      cases hp
  | cons p ps ih =>
      rcases bind_ok_iff.mp h with ⟨out, s₁, hp, h₁⟩
      rcases bind_ok_iff.mp h₁ with ⟨rest, s₂, hrest, h₂⟩
      rcases pure_ok_iff.mp h₂ with ⟨rfl, rfl⟩
      have hall := ih s₁ rest hrest
      rcases lowerProcess_lowered p s s₁ out hp with ⟨uses, plan, τ, hlow⟩
      rcases traced_units hlow.traced with ⟨hunits, hnames⟩
      -- Of all that lowering does to a process, the table sees its units only.
      have hbodies : s₁.cache.bodies = Bodies.noteUnits s.cache.bodies p.units := by
        rw [hlow.bodies, foldl_note_eq, hunits]
        rfl
      refine ⟨?_, hall.pipeline.trans hlow.pipeline, ?_, ?_, ?_⟩
      · rw [List.length_cons, List.length_cons, hall.length]
      · rw [hall.bodies, hbodies, List.flatMap_cons, Bodies.noteUnits_append]
      · intro fu hfu
        rw [List.flatMap_cons, List.mem_append] at hfu
        rcases hfu with hfu | hfu
        · exact hnames fu hfu
        · exact hall.names fu hfu
      · intro i q out' hq hout
        -- The first process ends with an older table, which those behind it extend.
        cases i with
        | zero =>
            rw [List.getElem?_cons_zero, Option.some.injEq] at hq hout
            rw [← hq, ← hout]
            refine ⟨s, s₁, hp, rfl, ?_⟩
            rw [hall.bodies]
            exact Bodies.noteUnits_keeps _ _
        | succ i =>
            rw [List.getElem?_cons_succ] at hq hout
            rcases hall.parts i q out' hq hout with ⟨t, t', ht, hpipe, hkeep⟩
            exact ⟨t, t', ht, hpipe.trans hlow.pipeline, hkeep⟩

/-- A template keeps the plain name exactly if the table says that the name
    stands for its body. -/
theorem templateName_eq_self_iff (T : Bodies) (name : String) (fp : UInt64) :
    T.templateName name fp = name ↔ T.lookup name = some fp := by
  unfold Bodies.templateName
  by_cases hT : T.lookup name = some fp
  · rw [if_pos hT]
    exact ⟨fun _ => hT, fun _ => rfl⟩
  · rw [if_neg hT]
    refine ⟨fun h => ?_, fun h => absurd h hT⟩
    -- The hashed name is longer than the name.
    have hlen := congrArg String.length h
    rw [Cache.hashedName, NameToken.text, String.length_append, String.length_append] at hlen
    have htwo : "_h".length = 2 := by decide
    omega

/-- The keys of a unit under two names are the same only if the names are. -/
theorem key_inj (fu : FunctionalUnit) (n m : String)
    (h : ({ fu with name := n } : FunctionalUnit).key
      = ({ fu with name := m } : FunctionalUnit).key) : n = m := by
  change n ++ "<" ++ String.intercalate "," (fu.params.map toString) ++ ">"
    = m ++ "<" ++ String.intercalate "," (fu.params.map toString) ++ ">" at h
  rw [String.append_left_inj, String.append_left_inj, String.append_left_inj] at h
  exact h

/-- Under tables that agree on the unit names of sites, the sites become the
    same instances. -/
theorem toInstance_congr (T T' : Bodies) (sites : List Site)
    (h : ∀ fu ∈ sites.filterMap Site.unit?, T.lookup fu.name = T'.lookup fu.name) :
    sites.map (Site.toInstance T) = sites.map (Site.toInstance T') := by
  refine List.map_congr_left fun site hsite => ?_
  rcases site with ⟨c, label, ports⟩
  cases c with
  | unit fu =>
      have hlookup := h fu (List.mem_filterMap.mpr ⟨_, hsite, rfl⟩)
      have hname : T.templateName fu.name (Text.fingerprint fu.body)
          = T'.templateName fu.name (Text.fingerprint fu.body) := by
        unfold Bodies.templateName
        rw [hlookup]
      simp only [Site.toInstance, Component.under, FunctionalUnit.under, hname]
  | _ => rfl

/-- If two tables give sites the same instances, then a unit that has its plain
    name under one has it under the other. -/
theorem lookup_of_same_instances (T T' : Bodies) (sites : List Site) (fu : FunctionalUnit)
    (hfu : fu ∈ sites.filterMap Site.unit?)
    (hsame : sites.map (Site.toInstance T) = sites.map (Site.toInstance T'))
    (h : T.lookup fu.name = some (Text.fingerprint fu.body)) :
    T'.lookup fu.name = some (Text.fingerprint fu.body) := by
  rcases List.mem_filterMap.mp hfu with ⟨site, hsite, hunit⟩
  have heq := List.map_inj_left.mp hsame site hsite
  rcases site with ⟨c, label, ports⟩
  cases c with
  | unit fu' =>
      rw [Site.unit?, Option.some.injEq] at hunit
      rw [hunit] at heq
      -- The instance shows the name in its key, and the parameters behind it are the same.
      have hkey := congrArg Instance.key heq
      have hname : T.templateName fu.name (Text.fingerprint fu.body)
          = T'.templateName fu.name (Text.fingerprint fu.body) := key_inj fu _ _ hkey
      rw [(templateName_eq_self_iff T fu.name _).mpr h] at hname
      exact (templateName_eq_self_iff T' fu.name _).mp hname.symm
  | _ => cases hunit

/-- The body that comes first under a name is that of some unit. -/
theorem firstBody_some (units : List FunctionalUnit) (name : String) (fp : UInt64)
    (h : firstBody units name = some fp) :
    ∃ fu ∈ units, fu.name = name ∧ Text.fingerprint fu.body = fp := by
  rcases Option.map_eq_some_iff.mp h with ⟨fu, hfind, hfp⟩
  have hname := List.find?_some (p := fun fu : FunctionalUnit => decide (fu.name = name)) hfind
  exact ⟨fu, List.mem_of_find?_eq_some hfind, of_decide_eq_true hname, hfp⟩

/-- After a run from nothing, the table answers with the first body. -/
theorem LoweredAll.lookup_bodies {ps : Program} {s s' : Session} {outs : List LoweredProcess}
    (hall : LoweredAll ps s s' outs) (hfresh : s.cache = .empty) (name : String)
    (hname : ¬ IsHashed name) :
    s'.cache.bodies.lookup name = firstBody (ps.flatMap Process.units) name := by
  rw [hall.bodies, Bodies.lookup_noteUnits _ _ name hname, hfresh]
  exact Option.none_or

section TwoOrders

variable {ps ps' : Program} {s s₁ s₂ : Session} {outs outs' : List LoweredProcess}

/-- What two runs do to one process: the copies agree, and the instances are
    the same sites read off the tables at the ends of the runs. -/
theorem sites_of_loweredAll (hall₁ : LoweredAll ps s s₁ outs) (hall₂ : LoweredAll ps' s s₂ outs')
    (i j : Nat) (p : Process) (out out' : LoweredProcess) (hi : ps[i]? = some p)
    (hj : ps'[j]? = some p) (hout : outs[i]? = some out) (hout' : outs'[j]? = some out') :
    out.copies = out'.copies ∧ ∃ sites : List Site,
      sites.filterMap Site.unit? = p.units ∧
      out.instances = sites.map (Site.toInstance s₁.cache.bodies) ∧
      out'.instances = sites.map (Site.toInstance s₂.cache.bodies) := by
  rcases hall₁.parts i p out hi hout with ⟨t, t', ht, hpipe, hkeep⟩
  rcases hall₂.parts j p out' hj hout' with ⟨u, u', hu, hpipe', hkeep'⟩
  rcases lowerProcess_lowered p t t' out ht with ⟨uses, plan, τ, hlow⟩
  rcases lowerProcess_lowered p u u' out' hu with ⟨uses', plan', τ', hlow'⟩
  -- What lowering writes for a process does not depend on the session but for its pipeline.
  rcases hlow.unique hlow' (hpipe.trans hpipe'.symm) with ⟨rfl, rfl⟩
  refine ⟨hlow.copies.trans hlow'.copies.symm, τ.sites, ?_, hlow.instances _ hkeep,
    hlow'.instances _ hkeep'⟩
  exact (traced_units hlow.traced).1

/-- If every process has the same instances in both orders, a body that comes
    first in one order comes first in the other. -/
theorem firstBody_of_same_instances (hall₁ : LoweredAll ps s s₁ outs)
    (hall₂ : LoweredAll ps' s s₂ outs') (hperm : ps.Perm ps') (hfresh : s.cache = .empty)
    (hsame : ∀ (i j : Nat) (p : Process) (out out' : LoweredProcess), ps[i]? = some p →
      ps'[j]? = some p → outs[i]? = some out → outs'[j]? = some out' →
      out.instances = out'.instances)
    (name : String) (fp : UInt64) (h : firstBody (ps.flatMap Process.units) name = some fp) :
    firstBody (ps'.flatMap Process.units) name = some fp := by
  rcases firstBody_some _ name fp h with ⟨fu, hfu, hname, hfp⟩
  rcases List.mem_flatMap.mp hfu with ⟨p, hp, hfup⟩
  -- The process of the unit is found at a place in each of the orders.
  rcases List.mem_iff_getElem?.mp hp with ⟨i, hi⟩
  rcases List.mem_iff_getElem?.mp (hperm.mem_iff.mp hp) with ⟨j, hj⟩
  have hout := List.getElem?_eq_getElem (l := outs) (i := i) (by
    rw [hall₁.length]
    exact (List.getElem?_eq_some_iff.mp hi).1)
  have hout' := List.getElem?_eq_getElem (l := outs') (i := j) (by
    rw [hall₂.length]
    exact (List.getElem?_eq_some_iff.mp hj).1)
  rcases sites_of_loweredAll hall₁ hall₂ i j p _ _ hi hj hout hout' with
    ⟨_, sites, hunits, hinst, hinst'⟩
  have hinsts := hsame i j p _ _ hi hj hout hout'
  rw [hinst, hinst'] at hinsts
  -- The unit keeps its plain name in the first order, so it does in the second.
  have hplain := hall₁.names fu hfu
  rw [← hunits] at hfup
  have hentry := lookup_of_same_instances _ _ sites fu hfup hinsts (by
    rw [hall₁.lookup_bodies hfresh fu.name hplain, hname, h, hfp])
  rw [hall₂.lookup_bodies hfresh fu.name hplain, hname, hfp] at hentry
  exact hentry

end TwoOrders

end Runs

/-- The order of processes does not matter exactly if every unit name stands
    for the same body first. Lowered from an empty cache in two orders, every
    process has the same copies and instances in both if and only if the two
    orders agree on the first body under every name. -/
theorem order_irrelevant_iff (ps ps' : Program) (s s₁ s₂ : Session)
    (outs outs' : List LoweredProcess) (hperm : ps.Perm ps') (hfresh : s.cache = .empty)
    (h₁ : lowerAll ps s = .ok outs s₁) (h₂ : lowerAll ps' s = .ok outs' s₂) :
    (∀ (i j : Nat) (p : Process) (out out' : LoweredProcess), ps[i]? = some p →
        ps'[j]? = some p → outs[i]? = some out → outs'[j]? = some out' →
        out.copies = out'.copies ∧ out.instances = out'.instances) ↔
      ∀ name, firstBody (ps.flatMap Process.units) name
        = firstBody (ps'.flatMap Process.units) name := by
  have hall₁ := lowerAll_ok ps s s₁ outs h₁
  have hall₂ := lowerAll_ok ps' s s₂ outs' h₂
  constructor
  · intro hsame name
    -- Either direction is the same argument with the two orders exchanged.
    refine Option.ext fun fp => ⟨?_, ?_⟩
    · exact firstBody_of_same_instances hall₁ hall₂ hperm hfresh
        (fun i j p out out' hi hj hout hout' => (hsame i j p out out' hi hj hout hout').2) name fp
    · exact firstBody_of_same_instances hall₂ hall₁ hperm.symm hfresh
        (fun i j p out out' hi hj hout hout' =>
          (hsame j i p out' out hj hi hout' hout).2.symm) name fp
  · intro hfirst i j p out out' hi hj hout hout'
    rcases sites_of_loweredAll hall₁ hall₂ i j p out out' hi hj hout hout' with
      ⟨hcopies, sites, hunits, hinst, hinst'⟩
    refine ⟨hcopies, ?_⟩
    rw [hinst, hinst']
    refine toInstance_congr _ _ sites fun fu hfu => ?_
    rw [hunits] at hfu
    have hname := hall₁.names fu (List.mem_flatMap.mpr ⟨p, List.mem_of_getElem? hi, hfu⟩)
    rw [hall₁.lookup_bodies hfresh fu.name hname, hall₂.lookup_bodies hfresh fu.name hname,
      hfirst fu.name]

/-- One cluster forwards two channels and another forwards one channel twice.
    Both spell the same name, so whichever comes second is renamed, and the
    instances depend on the order. -/
theorem forwarding_clusters_depend_on_order :
    let forwardTwo : Process := ⟨"p", ⟨[⟨"a", .int 8, .port .input, 0⟩,
        ⟨"b", .int 8, .port .input, 1⟩, ⟨"x", .int 8, .port .output, 2⟩,
        ⟨"y", .int 8, .port .output, 3⟩]⟩,
      [.cluster [⟨.var 0, none, some 2⟩, ⟨.var 1, none, some 3⟩]]⟩
    let forwardTwice : Process := ⟨"q", ⟨[⟨"a", .int 8, .port .input, 0⟩,
        ⟨"x", .int 8, .port .output, 1⟩, ⟨"y", .int 8, .port .output, 2⟩]⟩,
      [.cluster [⟨.var 0, none, some 1⟩, ⟨.var 0, none, some 2⟩]]⟩
    let s : Session := .start false .empty
    ∃ outs outs' s₁ s₂, lowerAll [forwardTwo, forwardTwice] s = .ok outs s₁ ∧
      lowerAll [forwardTwice, forwardTwo] s = .ok outs' s₂ ∧
      ¬ ∀ (i j : Nat) (p : Process) (out out' : LoweredProcess),
        [forwardTwo, forwardTwice][i]? = some p → [forwardTwice, forwardTwo][j]? = some p →
        outs[i]? = some out → outs'[j]? = some out' →
        out.copies = out'.copies ∧ out.instances = out'.instances := by
  intro forwardTwo forwardTwice s
  -- That both runs succeed is evaluated, and what they give is not.
  have hruns : ((match lowerAll [forwardTwo, forwardTwice] s with
      | .ok _ _ => true
      | .error _ _ => false) && (match lowerAll [forwardTwice, forwardTwo] s with
      | .ok _ _ => true
      | .error _ _ => false)) = true := by decide +kernel
  have hdiffer : firstBody ([forwardTwo, forwardTwice].flatMap Process.units)
        "func_port_8_p0_port_8_p1"
      ≠ firstBody ([forwardTwice, forwardTwo].flatMap Process.units)
        "func_port_8_p0_port_8_p1" := by decide +kernel
  cases h₁ : lowerAll [forwardTwo, forwardTwice] s with
  | error e s₁ =>
      rw [h₁] at hruns
      cases hruns
  | ok outs s₁ =>
      cases h₂ : lowerAll [forwardTwice, forwardTwo] s with
      | error e s₂ =>
          rw [h₁, h₂] at hruns
          cases hruns
      | ok outs' s₂ =>
          refine ⟨outs, outs', s₁, s₂, rfl, rfl, fun hsame => ?_⟩
          have hfirst := (order_irrelevant_iff _ _ s s₁ s₂ outs outs' (List.Perm.swap _ _ _) rfl
            h₁ h₂).mp hsame
          exact hdiffer (hfirst _)

end DataflowCircuit
