import DataflowCircuit.Proofs.Emit.BodyTexts
import DataflowCircuit.Proofs.Netlist.Deduplication

/-!
# Shared Templates

A template is written once under its name, by the first call site that needs
it, and every later call site with that name uses what is there. This file shows
that it may: the text is the one that its own template would have had.

For everything but units the name says it all. A unit can meet another unit
under the name that its operations spell, and then the second body gets the
name with its fingerprint added. A plain name stands for one fingerprint in the
table of bodies, a hashed name holds its own, and no plain name is a hashed one.
So units with the same final name have the same fingerprint, and if fingerprints
do not collide among the bodies of the run, they have the same body. The body
determines what is printed.

## Main definitions

* `DistinctFingerprints`: No two bodies share a fingerprint.

## Theorems

* `body_eq_of_templateName`: Units with the same final name have the same body.
* `unit_eq_of_templateName`: So they print alike.
* `render_eq_of_name`: Components with the same template name print alike.
* `shared_templates_print_alike`: A shared template is right for every call
  site.
-/

namespace DataflowCircuit

/-- No two bodies of units share a fingerprint. -/
def DistinctFingerprints (units : List FunctionalUnit) : Prop :=
  ∀ fu ∈ units, ∀ gu ∈ units, Text.fingerprint fu.body = Text.fingerprint gu.body →
    fu.body = gu.body

instance (units : List FunctionalUnit) : Decidable (DistinctFingerprints units) :=
  inferInstanceAs (Decidable (∀ fu ∈ units, ∀ gu ∈ units,
    Text.fingerprint fu.body = Text.fingerprint gu.body → fu.body = gu.body))

section Names

/-- A hashed name tells the fingerprint. -/
theorem hashedName_fingerprint (name name' : String) (fp fp' : UInt64)
    (h : Cache.hashedName name fp = Cache.hashedName name' fp') : fp = fp' := by
  have hlist := congrArg String.toList h
  rw [hashedName_toList, hashedName_toList] at hlist
  have hhash := (cutLast_unique '_' _ _ _ _ (underscore_notMem_hash _) (underscore_notMem_hash _)
    hlist).2
  have hval := congrArg (Text.ofDigits 16) (List.cons.inj hhash).2
  rw [Text.ofDigits_toDigits 16 _ (by decide) (by decide),
    Text.ofDigits_toDigits 16 _ (by decide) (by decide)] at hval
  exact UInt64.toNat_inj.mp hval

/-- Units with the same final name have the same body. -/
theorem body_eq_of_templateName (T : Bodies) (units : List FunctionalUnit)
    (hnames : ∀ fu ∈ units, ¬ IsHashed fu.name) (hdistinct : DistinctFingerprints units)
    (fu gu : FunctionalUnit) (hfu : fu ∈ units) (hgu : gu ∈ units)
    (h : (fu.under T).name = (gu.under T).name) : fu.body = gu.body := by
  refine hdistinct fu hfu gu hgu ?_
  simp only [FunctionalUnit.under, Bodies.templateName] at h
  by_cases hf : T.lookup fu.name = some (Text.fingerprint fu.body)
  · by_cases hg : T.lookup gu.name = some (Text.fingerprint gu.body)
    · -- Both names are plain, and a name stands for one fingerprint.
      rw [if_pos hf, if_pos hg] at h
      rw [h, hg, Option.some.injEq] at hf
      exact hf.symm
    · -- A plain name is never a hashed one.
      rw [if_pos hf, if_neg hg] at h
      exact absurd ⟨_, _, h⟩ (hnames fu hfu)
  · by_cases hg : T.lookup gu.name = some (Text.fingerprint gu.body)
    · rw [if_neg hf, if_pos hg] at h
      exact absurd ⟨_, _, h.symm⟩ (hnames gu hgu)
    · rw [if_neg hf, if_neg hg] at h
      exact hashedName_fingerprint _ _ _ _ h

end Names

section Printing

variable {ps : Program} (hnames : ∀ fu ∈ ps.flatMap Process.units, ¬ IsHashed fu.name)
  (hdistinct : DistinctFingerprints (ps.flatMap Process.units)) (T : Bodies)

include hnames hdistinct

/-- Units of a run with the same final name have the same body and print
    alike. -/
theorem unit_eq_of_templateName (fu gu : FunctionalUnit) (hfu : fu ∈ ps.flatMap Process.units)
    (hgu : gu ∈ ps.flatMap Process.units) (h : (fu.under T).name = (gu.under T).name) :
    fu.body = gu.body ∧ (fu.under T).render = (gu.under T).render := by
  have hbody := body_eq_of_templateName T _ hnames hdistinct fu gu hfu hgu h
  have hspelled : ∀ fu ∈ ps.flatMap Process.units, (fu.under T).Spelled := by
    intro fu hfu
    rcases List.mem_flatMap.mp hfu with ⟨p, _, hp⟩
    exact (spelled_of_mem_units p fu hp).under T
  refine ⟨hbody, ?_⟩
  -- The name and the body are all that is printed of a unit, widths being parameters.
  rw [← (fu.under T).render_printed, ← (gu.under T).render_printed,
    FunctionalUnit.printed_eq_of_body _ _ (hspelled fu hfu) (hspelled gu hgu) h hbody]

/-- Components of a run with the same template name print alike. -/
theorem render_eq_of_name (pipeline : Bool) (c d : Component)
    (hc : c ∈ ps.flatMap fun p => p.components pipeline T)
    (hd : d ∈ ps.flatMap fun p => p.components pipeline T)
    (h : c.template.name = d.template.name) : c.template.render = d.template.render := by
  rcases List.mem_flatMap.mp hc with ⟨p, hp, hcp⟩
  rcases List.mem_flatMap.mp hd with ⟨q, hq, hdq⟩
  rcases c.template_eq_of_name d (spelled_of_mem_components p pipeline T c hcp)
    (spelled_of_mem_components q pipeline T d hdq) h with htemplate | ⟨fu, gu, rfl, rfl⟩
  · rw [htemplate]
  · rcases unit_of_mem_components p pipeline T fu hcp with ⟨fu₀, hfu, rfl⟩
    rcases unit_of_mem_components q pipeline T gu hdq with ⟨gu₀, hgu, rfl⟩
    exact (unit_eq_of_templateName hnames hdistinct T fu₀ gu₀ (List.mem_flatMap.mpr ⟨p, hp, hfu⟩)
      (List.mem_flatMap.mpr ⟨q, hq, hgu⟩) h).2

end Printing

/-- Lists whose images agree are related position by position. -/
theorem forall₂_of_map_eq {α β γ : Type} {R : α → β → Prop} (f : α → γ) (g : β → γ)
    (xs : List α) (ys : List β) (h : xs.map f = ys.map g)
    (hR : ∀ x ∈ xs, ∀ y, f x = g y → R x y) : List.Forall₂ R xs ys := by
  induction xs generalizing ys with
  | nil =>
      cases ys with
      | nil => exact .nil
      | cons y ys => cases h
  | cons x xs ih =>
      cases ys with
      | nil => cases h
      | cons y ys =>
          rw [List.forall_mem_cons] at hR
          rcases List.cons.inj h with ⟨hhead, htail⟩
          exact .cons (hR.1 y hhead) (ih ys htail hR.2)

/-- A shared template is right for every call site. The copies and instances of
    a process are, in order, instances of its components. If fingerprints do not
    collide among the bodies of the run, a template with the name of an instance
    has been written when its process has, and every template of that name
    prints to the text of the component's own template. In particular, units
    with the same final name have the same body and the same text. -/
theorem shared_templates_print_alike (ps : Program) (s s' : Session)
    (outs : List LoweredProcess) (hfresh : s.cache = .empty)
    (hdistinct : DistinctFingerprints (ps.flatMap Process.units))
    (h : lowerAll ps s = .ok outs s') :
    (∀ (k : Nat) (p : Process) (out : LoweredProcess), ps[k]? = some p → outs[k]? = some out →
      List.Forall₂ (fun (c : Component) (inst : Instance) =>
          inst.key = c.key ∧ templateOf inst.key = c.template.name ∧
            (∃ template ∈ (outs.take (k + 1)).flatMap LoweredProcess.templates,
              template.name = templateOf inst.key) ∧
            ∀ template ∈ outs.flatMap LoweredProcess.templates,
              template.name = templateOf inst.key → template.render = c.template.render)
        (p.components s.pipeline s'.cache.bodies) out.sites) ∧
      ∀ fu ∈ ps.flatMap Process.units, ∀ gu ∈ ps.flatMap Process.units,
        (fu.under s'.cache.bodies).name = (gu.under s'.cache.bodies).name →
          fu.body = gu.body ∧
            (fu.under s'.cache.bodies).render = (gu.under s'.cache.bodies).render := by
  have hnames := (lowerAll_ok ps s s' outs h).names
  refine ⟨fun k p out hp hout => ?_, fun fu hfu gu hgu hname => ?_⟩
  · rcases lowerAll_emits ps s s' outs h with ⟨calls, hemitted, hcalls⟩
    have hall := hcalls s'.cache.bodies (Bodies.Keeps.refl _)
    rcases lowered_upto ps s s' outs h k out hout with
      ⟨q, t, before, own, hq, hupto, hsites, hown⟩
    rw [hp, Option.some.injEq] at hq
    rw [← hq] at hown
    rw [← hown, List.forall₂_map_left_iff]
    refine forall₂_of_map_eq Call.key Instance.key own out.sites hsites.symm ?_
    intro call hcall inst hkey
    -- The call that the instance was written for is one of the process.
    have hmem : call.component ∈ p.components s.pipeline s'.cache.bodies := by
      rw [← hown]
      exact List.mem_map_of_mem hcall
    -- The key starts with the name of the template.
    have hname : templateOf inst.key = call.component.template.name := by
      rw [← hkey]
      exact call.component.templateOf_key (spelled_of_mem_components p _ _ _ hmem)
    refine ⟨hkey.symm, hname, ?_, fun template htemplate hsame => ?_⟩
    · have hwritten := (hupto.mem_templates hfresh (templateOf inst.key)).mpr
        ⟨call, List.mem_append_right _ hcall, hname.symm⟩
      exact List.mem_map.mp hwritten
    · -- The template was written for some call of the run with the same name.
      rw [hemitted.templates] at htemplate
      rcases List.mem_map.mp (mem_of_mem_firsts Template.name _ _ template htemplate) with
        ⟨first, hfirst, rfl⟩
      rw [first.render_eq]
      refine render_eq_of_name hnames hdistinct s'.cache.bodies s.pipeline _ _ ?_
        (List.mem_flatMap.mpr ⟨p, List.mem_of_getElem? hp, hmem⟩) ?_
      · rw [← hall]
        exact List.mem_map_of_mem hfirst
      · rw [← first.name_eq, hsame, hname]
  · exact unit_eq_of_templateName hnames hdistinct s'.cache.bodies fu gu hfu hgu hname

/-- Two clusters spell the same name for different bodies, and the second body
    is used by two processes. It is written once, under its hashed name, and the
    template that the last process does not bring along prints to its text. -/
theorem renamed_templates_are_shared :
    let forwardTwo : Process := ⟨"p", ⟨[⟨"a", .int 8, .port .input, 0⟩,
        ⟨"b", .int 8, .port .input, 1⟩, ⟨"x", .int 8, .port .output, 2⟩,
        ⟨"y", .int 8, .port .output, 3⟩]⟩,
      [.cluster [⟨.var 0, none, some 2⟩, ⟨.var 1, none, some 3⟩]]⟩
    let forwardTwice : Process := ⟨"q", ⟨[⟨"a", .int 8, .port .input, 0⟩,
        ⟨"x", .int 8, .port .output, 1⟩, ⟨"y", .int 8, .port .output, 2⟩]⟩,
      [.cluster [⟨.var 0, none, some 1⟩, ⟨.var 0, none, some 2⟩]]⟩
    let s : Session := .start false .empty
    ∃ first second last s',
      lowerAll [forwardTwo, forwardTwice, forwardTwice] s = .ok [first, second, last] s' ∧
      last.templates = [] ∧ ∃ c inst template,
        forwardTwice.components false s'.cache.bodies = [c] ∧ last.sites = [inst] ∧
        second.templates = [template] ∧
        template.name = "func_port_8_p0_port_8_p1_h77050375fd71cac2" ∧
        templateOf inst.key = template.name ∧ template.render = c.template.render := by
  intro forwardTwo forwardTwice s
  have hrun : (match lowerAll [forwardTwo, forwardTwice, forwardTwice] s with
      | .ok outs _ => outs.map fun out =>
          (out.sites.map Instance.key, out.templates.map Template.name)
      | .error _ _ => [])
      = [(["func_port_8_p0_port_8_p1<8,8,8,8,8,8>"], ["func_port_8_p0_port_8_p1"]),
        (["func_port_8_p0_port_8_p1_h77050375fd71cac2<8,8,8,8,8>"],
          ["func_port_8_p0_port_8_p1_h77050375fd71cac2"]),
        (["func_port_8_p0_port_8_p1_h77050375fd71cac2<8,8,8,8,8>"], [])] := by decide +kernel
  have hdistinct : DistinctFingerprints
      ([forwardTwo, forwardTwice, forwardTwice].flatMap Process.units) := by decide +kernel
  cases hlower : lowerAll [forwardTwo, forwardTwice, forwardTwice] s with
  | error e s' =>
      rw [hlower] at hrun
      cases hrun
  | ok outs s' =>
      rw [hlower] at hrun
      rcases List.map_eq_cons_iff.mp hrun with ⟨first, rest, rfl, _, hrest⟩
      rcases List.map_eq_cons_iff.mp hrest with ⟨second, rest, rfl, hsecond, hrest⟩
      rcases List.map_eq_singleton_iff.mp hrest with ⟨last, rfl, hlast⟩
      simp only [Prod.mk.injEq, List.map_eq_singleton_iff, List.map_eq_nil_iff] at hsecond hlast
      rcases hsecond with ⟨_, template, htemplates, hname⟩
      rcases hlast with ⟨⟨inst, hsites, hkey⟩, hnone⟩
      -- The last process is at position two, and its one instance is for its one component.
      have hshared := (shared_templates_print_alike [forwardTwo, forwardTwice, forwardTwice] s s'
        [first, second, last] rfl hdistinct hlower).1 2 forwardTwice last rfl rfl
      rw [hsites] at hshared
      rcases List.forall₂_cons_right_iff.mp hshared with ⟨c, rest, hc, hrest, hcomponents⟩
      rw [List.forall₂_nil_right_iff.mp hrest] at hcomponents
      have htemplate : templateOf inst.key = template.name := by
        rw [hkey, hname]
        decide +kernel
      refine ⟨first, second, last, s', rfl, hnone, c, inst, template, hcomponents, hsites,
        htemplates, hname, htemplate, hc.2.2.2 template ?_ htemplate.symm⟩
      simp [htemplates]

end DataflowCircuit
