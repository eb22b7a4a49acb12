import DataflowCircuit.Element
import DataflowCircuit.Proofs.Basic.Steps
import Mathlib.Data.List.Forall2

/-!
# Traversals of Elements

Resolving names and making them canonical both walk over an element and leave
its shape alone, and printing walks over it once more. What such a walk keeps
is stated here once, for any references and expressions: conditions on them
are carried from one side of a walk to the other, and a walk that undoes
another one on every part undoes it on the whole element.

`WellFormed` is the shape of an element that was read. It is not part of the
type of elements, which passes are free to build in other shapes.

## Main definitions

* `Func.WellFormed`, `Element.WellFormed`: The shape of elements that were
  read, with conditions on their references and expressions.
* `Func.IsSink`: A function that is written like a sink.

## Theorems

* `traverseList_ok`: A list is traversed part by part.
* `traverse_wellFormed`, `map_wellFormed`: Walks keep the shape.
* `traverse_map`: Walks that undo each other on every part do so on the
  whole.
-/

namespace DataflowCircuit

section Lists

variable {α β γ η : Type}

/-- A list is traversed part by part. -/
theorem traverseList_ok (f : α → Except η β) (xs : List α) (ys : List β)
    (h : traverseList f xs = .ok ys) : List.Forall₂ (fun x y => f x = .ok y) xs ys := by
  induction xs generalizing ys with
  | nil =>
      rw [traverseList, Except.ok.injEq] at h
      rw [← h]
      exact List.Forall₂.nil
  | cons x xs ih =>
      rcases except_bind_ok_iff.mp h with ⟨y, hy, h₁⟩
      rcases except_bind_ok_iff.mp h₁ with ⟨rest, hrest, h₂⟩
      have hys := except_pure_ok_iff.mp h₂
      rw [← hys]
      exact List.Forall₂.cons hy (ih rest hrest)

/-- What holds of every part holds of every result. -/
theorem forall_of_traverseList (f : α → Except η β) (P : α → Prop) (P' : β → Prop)
    (hf : ∀ x y, f x = .ok y → P x → P' y) (xs : List α) (ys : List β)
    (h : traverseList f xs = .ok ys) (hxs : ∀ x ∈ xs, P x) : ∀ y ∈ ys, P' y := by
  have hall := traverseList_ok f xs ys h
  -- The induction is over the pairs, where both lists are taken apart together.
  clear h
  induction hall with
  | nil => exact fun y hy => absurd hy List.not_mem_nil
  | cons hx hrest ih =>
      intro z hz
      rcases List.mem_cons.mp hz with rfl | hz
      · exact hf _ _ hx (hxs _ List.mem_cons_self)
      · exact ih (fun x hx => hxs x (List.mem_cons_of_mem _ hx)) z hz

/-- Walking over a list that was mapped is one walk. -/
theorem traverseList_map (f : β → Except η γ) (g : α → β) (xs : List α) :
    traverseList f (xs.map g) = traverseList (f ∘ g) xs := by
  induction xs with
  | nil => rfl
  | cons x xs ih =>
      rw [List.map_cons, traverseList, traverseList, ih]
      rfl

/-- A walk over a list that succeeds on every part is a map. -/
theorem traverseList_eq_map (f : α → Except η β) (h : α → β) (xs : List α)
    (hxs : ∀ x ∈ xs, f x = .ok (h x)) : traverseList f xs = .ok (xs.map h) := by
  induction xs with
  | nil => rfl
  | cons x xs ih =>
      rw [traverseList, hxs x List.mem_cons_self, ih fun y hy => hxs y (List.mem_cons_of_mem x hy)]
      rfl

/-- What holds of an optional part holds of its result. -/
theorem forall_of_traverseOption (f : α → Except η β) (P : α → Prop) (P' : β → Prop)
    (hf : ∀ x y, f x = .ok y → P x → P' y) (x : Option α) (y : Option β)
    (h : traverseOption f x = .ok y) (hx : ∀ a ∈ x, P a) : ∀ b ∈ y, P' b := by
  cases x with
  | none =>
      cases h
      exact fun b hb => absurd hb (Option.not_mem_none b)
  | some a =>
      rcases except_bind_ok_iff.mp h with ⟨b, hb, h₁⟩
      cases h₁
      intro b' hb'
      cases hb'
      exact hf a b hb (hx a rfl)

/-- Walking over an optional part that was mapped is one walk. -/
theorem traverseOption_map (f : β → Except η γ) (g : α → β) (x : Option α) :
    traverseOption f (x.map g) = traverseOption (f ∘ g) x := by
  cases x with
  | none => rfl
  | some a => rfl

/-- A walk over an optional part that succeeds on it is a map. -/
theorem traverseOption_eq_map (f : α → Except η β) (h : α → β) (x : Option α)
    (hx : ∀ a ∈ x, f a = .ok (h a)) : traverseOption f x = .ok (x.map h) := by
  cases x with
  | none => rfl
  | some a =>
      rw [traverseOption, hx a rfl]
      rfl

/-- A walk makes no part that was not there. -/
theorem traverseOption_eq_none (f : α → Except η β) (x : Option α)
    (h : traverseOption f x = .ok none) : x = none := by
  cases x with
  | none => rfl
  | some a =>
      rcases except_bind_ok_iff.mp h with ⟨b, hb, h₁⟩
      cases h₁

end Lists

section Shapes

variable {χ ε : Type}

/-- The references of a function satisfy `P`, its expressions `Q`, and its
    depth fits into a word. -/
structure Func.WellFormed (P : χ → Prop) (Q : ε → Prop) (f : Func χ ε) : Prop where
  expr : Q f.expr
  depth : ∀ b ∈ f.buffer, b.depth < UInt64.size
  init : ∀ b ∈ f.buffer, ∀ e ∈ b.init, Q e
  output : ∀ c ∈ f.output, P c

/-- A function is written like a sink if it is a bare channel without a buffer
    that goes nowhere. -/
def Func.IsSink (bare : ε → Prop) (f : Func χ ε) : Prop :=
  bare f.expr ∧ f.buffer = none ∧ f.output = none

/-- An element has the shape of one that was read, its references satisfy `P`
    and its expressions `Q`, where `bare` are the expressions that are just a
    channel. -/
def Element.WellFormed (P : χ → Prop) (Q bare : ε → Prop) : Element χ ε → Prop
  | .func f => f.WellFormed P Q ∧ ¬ f.IsSink bare
  | .split guard input outputs =>
    P guard ∧ P input ∧ (∀ o ∈ outputs, ∀ c ∈ o, P c) ∧ 2 ≤ outputs.length
  | .merge guard inputs output => P guard ∧ (∀ c ∈ inputs, P c) ∧ P output ∧ inputs ≠ []
  | .mixer inputs output => (∀ c ∈ inputs, P c) ∧ P output ∧ inputs ≠ []
  | .arbiter inputs output ctrl => (∀ c ∈ inputs, P c) ∧ P output ∧ P ctrl ∧ inputs ≠ []
  | .sink input => P input
  | .cluster funcs => ∀ f ∈ funcs, f.WellFormed P Q ∧ ¬ f.IsSink bare

end Shapes

section Walks

variable {χ χ' ε ε' η : Type} {P : χ → Prop} {P' : χ' → Prop} {Q bare : ε → Prop}
  {Q' bare' : ε' → Prop}

/-- A walk keeps the number of parts, so it empties no list. -/
theorem traverse_ne_nil (f : χ → Except η χ') (xs : List χ) (ys : List χ')
    (h : traverseList f xs = .ok ys) (hne : xs ≠ []) : ys ≠ [] := by
  intro hnil
  have hlen := (traverseList_ok f xs ys h).length_eq
  rw [hnil] at hlen
  exact hne (List.eq_nil_of_length_eq_zero hlen)

/-- Resolving a function keeps its shape. -/
theorem traverse_func_wellFormed (f : χ → Except η χ') (g : ε → Except η ε')
    (hf : ∀ c c', f c = .ok c' → P c → P' c') (hg : ∀ e e', g e = .ok e' → Q e → Q' e')
    (hbare : ∀ e e', g e = .ok e' → bare' e' → bare e) (fn : Func χ ε) (fn' : Func χ' ε')
    (h : fn.traverse f g = .ok fn') (hfn : fn.WellFormed P Q ∧ ¬ fn.IsSink bare) :
    fn'.WellFormed P' Q' ∧ ¬ fn'.IsSink bare' := by
  rcases except_bind_ok_iff.mp h with ⟨buffer, hbuffer, h₁⟩
  rcases except_bind_ok_iff.mp h₁ with ⟨expr, hexpr, h₂⟩
  rcases except_bind_ok_iff.mp h₂ with ⟨output, houtput, h₃⟩
  cases h₃
  -- The depth is copied and the initial token resolved.
  have hinit := forall_of_traverseOption _ (fun b => b.depth < UInt64.size ∧ ∀ e ∈ b.init, Q e)
    (fun b => b.depth < UInt64.size ∧ ∀ e ∈ b.init, Q' e) (by
      intro b b' hb hQ
      rcases except_bind_ok_iff.mp hb with ⟨init, hinit, h₄⟩
      cases h₄
      exact ⟨hQ.1, forall_of_traverseOption g Q Q' hg _ _ hinit hQ.2⟩) _ _ hbuffer
    fun b hb => ⟨hfn.1.depth b hb, hfn.1.init b hb⟩
  refine ⟨⟨hg _ _ hexpr hfn.1.expr, fun b hb => (hinit b hb).1, fun b hb => (hinit b hb).2,
    forall_of_traverseOption f P P' hf _ _ houtput hfn.1.output⟩, ?_⟩
  intro hsink
  -- A walk adds no buffer and no target, so the sink was one before.
  rcases hsink with ⟨hvar, hnobuffer, hnooutput⟩
  have hnobuffer : buffer = none := hnobuffer
  have hnooutput : output = none := hnooutput
  rw [hnobuffer] at hbuffer
  rw [hnooutput] at houtput
  exact hfn.2 ⟨hbare _ _ hexpr hvar, traverseOption_eq_none _ _ hbuffer,
    traverseOption_eq_none _ _ houtput⟩

/-- Resolving an element keeps its shape. -/
theorem traverse_wellFormed (f : χ → Except η χ') (g : ε → Except η ε')
    (hf : ∀ c c', f c = .ok c' → P c → P' c') (hg : ∀ e e', g e = .ok e' → Q e → Q' e')
    (hbare : ∀ e e', g e = .ok e' → bare' e' → bare e) (el : Element χ ε) (el' : Element χ' ε')
    (h : el.traverse f g = .ok el') (hel : el.WellFormed P Q bare) :
    el'.WellFormed P' Q' bare' := by
  have hlist := forall_of_traverseList f P P' hf
  -- One case for each shape, each with its parts in the order in which they are resolved.
  cases el with
  | func fn =>
      rcases except_bind_ok_iff.mp h with ⟨fn', hfn', h₁⟩
      cases h₁
      exact traverse_func_wellFormed f g hf hg hbare fn fn' hfn' hel
  | split guard input outputs =>
      rcases except_bind_ok_iff.mp h with ⟨guard', hguard, h₁⟩
      rcases except_bind_ok_iff.mp h₁ with ⟨input', hinput, h₂⟩
      rcases except_bind_ok_iff.mp h₂ with ⟨outputs', houtputs, h₃⟩
      cases h₃
      refine ⟨hf _ _ hguard hel.1, hf _ _ hinput hel.2.1, ?_, ?_⟩
      · exact forall_of_traverseList _ (fun o => ∀ c ∈ o, P c) (fun o => ∀ c ∈ o, P' c)
          (fun o o' ho hP => forall_of_traverseOption f P P' hf o o' ho hP) _ _ houtputs hel.2.2.1
      -- A split keeps its outputs, the missing ones included.
      · rw [← (traverseList_ok _ _ _ houtputs).length_eq]
        exact hel.2.2.2
  | merge guard inputs output =>
      rcases except_bind_ok_iff.mp h with ⟨guard', hguard, h₁⟩
      rcases except_bind_ok_iff.mp h₁ with ⟨inputs', hinputs, h₂⟩
      rcases except_bind_ok_iff.mp h₂ with ⟨output', houtput, h₃⟩
      cases h₃
      exact ⟨hf _ _ hguard hel.1, hlist _ _ hinputs hel.2.1, hf _ _ houtput hel.2.2.1,
        traverse_ne_nil f _ _ hinputs hel.2.2.2⟩
  | mixer inputs output =>
      rcases except_bind_ok_iff.mp h with ⟨inputs', hinputs, h₁⟩
      rcases except_bind_ok_iff.mp h₁ with ⟨output', houtput, h₂⟩
      cases h₂
      exact ⟨hlist _ _ hinputs hel.1, hf _ _ houtput hel.2.1,
        traverse_ne_nil f _ _ hinputs hel.2.2⟩
  | arbiter inputs output ctrl =>
      rcases except_bind_ok_iff.mp h with ⟨inputs', hinputs, h₁⟩
      rcases except_bind_ok_iff.mp h₁ with ⟨output', houtput, h₂⟩
      rcases except_bind_ok_iff.mp h₂ with ⟨ctrl', hctrl, h₃⟩
      cases h₃
      exact ⟨hlist _ _ hinputs hel.1, hf _ _ houtput hel.2.1, hf _ _ hctrl hel.2.2.1,
        traverse_ne_nil f _ _ hinputs hel.2.2.2⟩
  | sink input =>
      rcases except_bind_ok_iff.mp h with ⟨input', hinput, h₁⟩
      cases h₁
      exact hf _ _ hinput hel
  | cluster funcs =>
      rcases except_bind_ok_iff.mp h with ⟨funcs', hfuncs, h₁⟩
      cases h₁
      exact forall_of_traverseList _ _ _ (traverse_func_wellFormed f g hf hg hbare) _ _ hfuncs hel

/-- Walking over a function that was mapped is one walk. -/
theorem traverse_map_func {χ'' ε'' : Type} (f : χ' → Except η χ'') (g : ε' → Except η ε'')
    (a : χ → χ') (b : ε → ε') (fn : Func χ ε) :
    (fn.map a b).traverse f g = fn.traverse (f ∘ a) (g ∘ b) := by
  rcases fn with ⟨e, _ | ⟨depth, _ | init⟩, _ | c⟩ <;> rfl

/-- Walking over an element that was mapped is one walk. -/
theorem traverse_map {χ'' ε'' : Type} (f : χ' → Except η χ'') (g : ε' → Except η ε'')
    (a : χ → χ') (b : ε → ε') (el : Element χ ε) :
    (el.map a b).traverse f g = el.traverse (f ∘ a) (g ∘ b) := by
  cases el with
  | func fn => simp only [Element.map, Element.traverse, traverse_map_func]
  | split guard input outputs =>
      have houtputs : traverseList (traverseOption f) (outputs.map (Option.map a))
          = traverseList (traverseOption (f ∘ a)) outputs := by
        rw [traverseList_map]
        refine congrArg (traverseList · outputs) (funext fun o => ?_)
        exact traverseOption_map f a o
      simp only [Element.map, Element.traverse, houtputs, Function.comp_apply]
  | merge guard inputs output =>
      simp only [Element.map, Element.traverse, traverseList_map, Function.comp_apply]
  | mixer inputs output =>
      simp only [Element.map, Element.traverse, traverseList_map, Function.comp_apply]
  | arbiter inputs output ctrl =>
      simp only [Element.map, Element.traverse, traverseList_map, Function.comp_apply]
  | sink input => rfl
  | cluster funcs =>
      have hfuncs : traverseList (Func.traverse f g) (funcs.map (Func.map a b))
          = traverseList (Func.traverse (f ∘ a) (g ∘ b)) funcs := by
        rw [traverseList_map]
        refine congrArg (traverseList · funcs) (funext fun fn => ?_)
        exact traverse_map_func f g a b fn
      simp only [Element.map, Element.traverse, hfuncs]

/-- A walk over a function that succeeds on every part is a map. -/
theorem traverse_func_eq_map (f : χ → Except η χ') (g : ε → Except η ε') (a : χ → χ') (b : ε → ε')
    (hf : ∀ c, P c → f c = .ok (a c)) (hg : ∀ e, Q e → g e = .ok (b e)) (fn : Func χ ε)
    (hfn : fn.WellFormed P Q) : fn.traverse f g = .ok (fn.map a b) := by
  have hbuffer := traverseOption_eq_map
    (fun b : Buffer ε => do return (⟨b.depth, ← traverseOption g b.init⟩ : Buffer ε'))
    (Buffer.map b) fn.buffer (by
      intro x hx
      rw [traverseOption_eq_map g b x.init fun e he => hg e (hfn.init x hx e he)]
      rfl)
  have houtput := traverseOption_eq_map f a fn.output fun c hc => hf c (hfn.output c hc)
  unfold Func.traverse
  rw [hbuffer, hg fn.expr hfn.expr, houtput]
  rfl

/-- A walk over an element that succeeds on every part is a map. -/
theorem traverse_eq_map (f : χ → Except η χ') (g : ε → Except η ε') (a : χ → χ') (b : ε → ε')
    (hf : ∀ c, P c → f c = .ok (a c)) (hg : ∀ e, Q e → g e = .ok (b e)) (el : Element χ ε)
    (hel : el.WellFormed P Q bare) : el.traverse f g = .ok (el.map a b) := by
  have hlist : ∀ xs : List χ, (∀ c ∈ xs, P c) → traverseList f xs = .ok (xs.map a) :=
    fun xs hxs => traverseList_eq_map f a xs fun c hc => hf c (hxs c hc)
  cases el with
  | func fn =>
      rw [Element.traverse, traverse_func_eq_map f g a b hf hg fn hel.1]
      rfl
  | split guard input outputs =>
      have houtputs := traverseList_eq_map (traverseOption f) (Option.map a) outputs
        fun o ho => traverseOption_eq_map f a o fun c hc => hf c (hel.2.2.1 o ho c hc)
      rw [Element.traverse, hf guard hel.1, hf input hel.2.1, houtputs]
      rfl
  | merge guard inputs output =>
      rw [Element.traverse, hf guard hel.1, hlist inputs hel.2.1, hf output hel.2.2.1]
      rfl
  | mixer inputs output =>
      rw [Element.traverse, hlist inputs hel.1, hf output hel.2.1]
      rfl
  | arbiter inputs output ctrl =>
      rw [Element.traverse, hlist inputs hel.1, hf output hel.2.1, hf ctrl hel.2.2.1]
      rfl
  | sink input =>
      rw [Element.traverse, hf input hel]
      rfl
  | cluster funcs =>
      rw [Element.traverse, traverseList_eq_map _ (Func.map a b) funcs fun fn hfn =>
        traverse_func_eq_map f g a b hf hg fn (hel fn hfn).1]
      rfl

/-- The identity leaves a function alone. -/
theorem map_id_func (fn : Func χ ε) : fn.map id id = fn := by
  rcases fn with ⟨e, _ | ⟨depth, _ | init⟩, _ | c⟩ <;> rfl

/-- The identity leaves an element alone. -/
theorem map_id_element (el : Element χ ε) : el.map id id = el := by
  cases el with
  | func fn => rw [Element.map, map_id_func]
  | cluster funcs =>
      have hfuncs : funcs.map (Func.map id id) = funcs := by
        rw [List.map_congr_left fun fn _ => map_id_func fn, List.map_id']
      rw [Element.map, hfuncs]
  | _ => simp [Element.map]

/-- A walk that undoes a map on every part undoes it on the element. -/
theorem traverse_map_cancel (f : χ' → Except η χ) (g : ε' → Except η ε) (a : χ → χ') (b : ε → ε')
    (hf : ∀ c, P c → f (a c) = .ok c) (hg : ∀ e, Q e → g (b e) = .ok e) (el : Element χ ε)
    (hel : el.WellFormed P Q bare) : (el.map a b).traverse f g = .ok el := by
  rw [traverse_map, traverse_eq_map (f ∘ a) (g ∘ b) id id hf hg el hel, map_id_element]

/-- A map that leaves every part alone leaves the element alone. -/
theorem map_eq_self (a : χ → χ) (b : ε → ε) (hf : ∀ c, P c → a c = c) (hg : ∀ e, Q e → b e = e)
    (el : Element χ ε) (hel : el.WellFormed P Q bare) : el.map a b = el := by
  have hmap : el.traverse (fun c => (.ok c : Except Empty χ)) (fun e => (.ok e : Except Empty ε))
      = .ok (el.map a b) :=
    traverse_eq_map _ _ a b (fun c hc => congrArg Except.ok (hf c hc).symm)
      (fun e he => congrArg Except.ok (hg e he).symm) el hel
  -- The same walk is also the map of identities.
  have hid := traverse_eq_map (fun c => (.ok c : Except Empty χ))
    (fun e => (.ok e : Except Empty ε)) id id (fun _ _ => rfl) (fun _ _ => rfl) el hel
  rw [hmap, map_id_element] at hid
  exact Except.ok.inj hid

/-- Mapping an element keeps its shape. -/
theorem map_wellFormed (a : χ → χ') (b : ε → ε') (hf : ∀ c, P c → P' (a c))
    (hg : ∀ e, Q e → Q' (b e)) (hbare : ∀ e, bare' (b e) → bare e) (el : Element χ ε)
    (hel : el.WellFormed P Q bare) : (el.map a b).WellFormed P' Q' bare' := by
  -- A map is a walk that never fails, so what walks keep it keeps.
  have hwalk : el.traverse (fun c => (.ok (a c) : Except Empty χ'))
      (fun e => (.ok (b e) : Except Empty ε')) = .ok (el.map a b) :=
    traverse_eq_map _ _ a b (fun _ _ => rfl) (fun _ _ => rfl) el hel
  refine traverse_wellFormed _ _ ?_ ?_ ?_ el _ hwalk hel
  · intro c c' hc hP
    cases hc
    exact hf c hP
  · intro e e' he hQ
    cases he
    exact hg e hQ
  · intro e e' he hvar
    cases he
    exact hbare e hvar

/-- A shape may be described by weaker properties. -/
theorem wellFormed_mono {P' : χ → Prop} {Q' : ε → Prop} (hP : ∀ c, P c → P' c)
    (hQ : ∀ e, Q e → Q' e) (el : Element χ ε) (hel : el.WellFormed P Q bare) :
    el.WellFormed P' Q' bare := by
  have hmap := map_wellFormed id id hP hQ (fun _ h => h) el hel
  rw [map_id_element] at hmap
  exact hmap

end Walks

end DataflowCircuit
