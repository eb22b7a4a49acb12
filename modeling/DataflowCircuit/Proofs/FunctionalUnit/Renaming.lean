import DataflowCircuit.Proofs.FunctionalUnit.Evaluation
import DataflowCircuit.Proofs.Lowering.Consistency

/-!
# Renaming Channels

A functional unit knows its channels by argument slots only. Renaming the
channels of what is lowered, within a process or from one process to another,
therefore changes nothing about the unit but the channels that its slots stand
for. This is why the same function in two processes becomes the same unit, and
one template serves both.

The renaming has to keep channels apart, because a channel that was met before
is found again, and it has to keep widths, including the lack of one, on which
lowering stops. Nothing is asked about channels that do not occur: a renaming
from a function of one process to a function of another need not extend to the
processes.

Lowering stops with errors that name the element and the channel, so the
statement is about two runs side by side that may stop with different errors.
`Mirrors` relates two steps of a builder from every builder and its renaming.

## Main definitions

* `Scope.Renames`: A renaming from one scope to another.
* `UnitBuilder.rename`: A builder for renamed channels.
* `Mirrored`, `Mirrors`: Outcomes and steps that differ by a renaming.
* `Expr.Over`: An expression over some channels.

## Theorems

* `mirrors_bind` and the rules beside it: Steps that mirror each other.
* `lower_mirrors`, `lowerOutputs_mirrors`: Lowering a renamed expression.
* `gatherUnit_rename`: Gathering renamed members.
* `units_depend_on_shape_and_widths`: A unit depends on nothing else.
-/

namespace DataflowCircuit

/-- A renaming of the channels `P` of one scope to channels of another: it keeps
    them apart, and a channel has the same width under both names, or none. -/
structure Scope.Renames (s s' : Scope) (ρ : ChannelId → ChannelId) (P : ChannelId → Prop) :
    Prop where
  apart : ∀ id id', P id → P id' → ρ id = ρ id' → id = id'
  width : ∀ id, P id → s'.width? (ρ id) = s.width? id

/-- The builder with the channels of its argument slots renamed. -/
def UnitBuilder.rename (ρ : ChannelId → ChannelId) (b : UnitBuilder) : UnitBuilder :=
  { b with args := b.args.map ρ }

/-- Does an expression read channels of `P` only? -/
def Expr.Over (P : ChannelId → Prop) (e : Expr) : Prop :=
  ∀ id ∈ e.addReads [], P id

section Rules

variable (ρ : ChannelId → ChannelId) (P : ChannelId → Prop) {α β : Type}

/-- Outcomes that differ by a renaming: the same result, or some error on both
    sides. -/
inductive Mirrored : EStateM.Result Error UnitBuilder α → EStateM.Result Error UnitBuilder α →
    Prop where
  | ok (a : α) (b : UnitBuilder) (hb : ∀ id ∈ b.args, P id) :
      Mirrored (.ok a b) (.ok a (b.rename ρ))
  | error (e e' : Error) (b : UnitBuilder) : Mirrored (.error e b) (.error e' (b.rename ρ))

/-- Steps whose outcomes differ by the renaming by which their builders do. -/
def Mirrors (m n : UnitBuilder.Step α) : Prop :=
  ∀ b : UnitBuilder, (∀ id ∈ b.args, P id) → Mirrored ρ P (m b) (n (b.rename ρ))

variable {ρ P}

/-- A success is mirrored by the same one under the renaming. -/
theorem Mirrored.of_ok {a : α} {b : UnitBuilder} {r : EStateM.Result Error UnitBuilder α}
    (h : Mirrored ρ P (.ok a b) r) : r = .ok a (b.rename ρ) := by
  cases h
  rfl

/-- A mirrored success comes from one. -/
theorem Mirrored.ok_of {a : α} {b' : UnitBuilder} {r : EStateM.Result Error UnitBuilder α}
    (h : Mirrored ρ P r (.ok a b')) : ∃ b, r = .ok a b := by
  generalize hq : EStateM.Result.ok a b' = q at h
  cases h with
  | ok a b hb =>
      cases hq
      exact ⟨b, rfl⟩
  | error e e' b => cases hq

/-- Returning looks at no channel. -/
theorem mirrors_pure (a : α) : Mirrors ρ P (pure a) (pure a) :=
  fun b hb => .ok a b hb

/-- Errors need not agree, since they name elements and channels. -/
theorem mirrors_throw (e e' : Error) :
    Mirrors ρ P (throw e : UnitBuilder.Step α) (throw e') :=
  fun b _ => .error e e' b

/-- Steps that mirror each other, and go on so. -/
theorem mirrors_bind {m n : UnitBuilder.Step α} {k l : α → UnitBuilder.Step β}
    (hm : Mirrors ρ P m n) (hk : ∀ a, Mirrors ρ P (k a) (l a)) :
    Mirrors ρ P (m >>= k) (n >>= l) := by
  intro b hb
  have hfirst := hm b hb
  rw [bind_apply, bind_apply]
  -- What comes first is done on both sides or on neither.
  generalize m b = r at hfirst ⊢
  generalize n (b.rename ρ) = q at hfirst ⊢
  cases hfirst with
  | ok a b' hb' => exact hk a b' hb'
  | error e e' b' => exact .error e e' b'

/-- A check that does not see channels fires on both sides. -/
theorem mirrors_guard (c : Prop) [Decidable c] (e e' : Error)
    {k l : PUnit → UnitBuilder.Step β} (hk : Mirrors ρ P (k ()) (l ())) :
    Mirrors ρ P (if c then throw e >>= k else k ()) (if c then throw e' >>= l else l ()) := by
  by_cases hc : c
  · rw [if_pos hc, if_pos hc]
    exact fun b _ => .error e e' b
  · rw [if_neg hc, if_neg hc]
    exact hk

/-- Results that agree as far as they succeed. -/
theorem mirrors_lift (x y : Except Error α) (h : y.toOption = x.toOption) :
    Mirrors ρ P (UnitBuilder.lift x) (UnitBuilder.lift y) := by
  cases x with
  | ok a =>
      cases y with
      | ok a' =>
          cases h
          exact mirrors_pure a
      | error e => cases h
  | error e =>
      cases y with
      | ok a' => cases h
      | error e' => exact mirrors_throw e e'

/-- As far as it succeeds, a sequence is one of optional values. -/
theorem toOption_bind (x : Except Error α) (k : α → Except Error β) :
    (x >>= k).toOption = x.toOption.bind fun a => (k a).toOption := by
  cases x <;> rfl

end Rules

section Lowering

variable {s s' : Scope} {ρ : ChannelId → ChannelId} {P : ChannelId → Prop}

/-- A renaming that keeps channels apart keeps their positions. -/
theorem idxOf?_map_of_apart (ids : List ChannelId) (id : ChannelId)
    (hapart : ∀ i ∈ ids, ρ i = ρ id → i = id) :
    (ids.map ρ).idxOf? (ρ id) = ids.idxOf? id := by
  induction ids with
  | nil => rfl
  | cons i ids ih =>
      rw [List.forall_mem_cons] at hapart
      rw [List.map_cons, List.idxOf?_cons, List.idxOf?_cons, ih hapart.2]
      -- Only here does it matter that channels are kept apart: a slot is found by comparing them.
      have hbeq : (ρ i == ρ id) = (i == id) := by
        rw [Bool.eq_iff_iff, beq_iff_eq, beq_iff_eq]
        exact ⟨hapart.1, fun h => by rw [h]⟩
      rw [hbeq]

/-- A channel has the same width under both names, as far as it has one. -/
theorem Scope.Renames.toOption_width (h : s.Renames s' ρ P) (id : ChannelId) (hid : P id) :
    (s'.width (ρ id)).toOption = (s.width id).toOption := by
  unfold Scope.width
  rw [h.width id hid]
  cases s.width? id <;> rfl

namespace Expr

/-- The channels of an operation are those of its sides. -/
theorem over_binary (op : BinOp) (lhs rhs : Expr) :
    (Expr.binary op lhs rhs).Over P ↔ lhs.Over P ∧ rhs.Over P := by
  simp only [Over, addReads, mem_addReads rhs (lhs.addReads []), or_imp, forall_and]

/-- The channels of a conditional are those of its parts. -/
theorem over_query (c t e : Expr) :
    (Expr.query c t e).Over P ↔ c.Over P ∧ t.Over P ∧ e.Over P := by
  simp only [Over, addReads, mem_addReads e (t.addReads _), mem_addReads t (c.addReads []), or_imp,
    forall_and, and_assoc]

/-- A channel reads itself. -/
theorem over_var (id : ChannelId) : (Expr.var id).Over P ↔ P id := by
  simp [Over, addReads, addRead]

/-- A literal stays the literal that it is. -/
theorem asConst?_map (e : Expr) : (e.map ρ).asConst? = e.asConst? := by
  induction e with
  | cast arg w ih => exact ih
  | _ => rfl

end Expr

/-- An initial token names no channel. -/
theorem Lowering.initialToken_map (σ : ChannelId → ChannelId) (f : Func ChannelId Expr) :
    initialToken (f.map σ (Expr.map ρ)) = initialToken f := by
  unfold initialToken Func.map
  cases f.buffer with
  | none => rfl
  | some b =>
      simp only [Option.map_some, Option.bind_some, Buffer.map]
      cases b.init with
      | none => rfl
      | some e => exact e.asConst?_map

section Steps

variable (h : s.Renames s' ρ P)

include h

/-- A channel gets the same slot under both names. -/
theorem mirrors_arg (id : ChannelId) (hid : P id) :
    Mirrors ρ P (UnitBuilder.arg s id) (UnitBuilder.arg s' (ρ id)) := by
  intro b hb
  -- A channel that has a slot has the same one under both names.
  have hslot : (b.rename ρ).args.idxOf? (ρ id) = b.args.idxOf? id :=
    idxOf?_map_of_apart b.args id fun i hi => h.apart i id (hb i hi) hid
  unfold UnitBuilder.arg
  rw [get_bind_apply, get_bind_apply, hslot]
  cases b.args.idxOf? id with
  | some slot => exact .ok _ b hb
  | none =>
      -- Both get the next slot, or neither has a width.
      have hnew (w : Nat) : Mirrored ρ P (.ok (Operand.arg b.args.length) (b.addArg id w))
          (.ok (Operand.arg (b.rename ρ).args.length) ((b.rename ρ).addArg (ρ id) w)) := by
        have hlength : (b.rename ρ).args.length = b.args.length := List.length_map _
        have hadd : (b.rename ρ).addArg (ρ id) w = (b.addArg id w).rename ρ := by
          simp [UnitBuilder.rename, UnitBuilder.addArg]
        rw [hlength, hadd]
        refine .ok _ (b.addArg id w) fun i hi => ?_
        rcases List.mem_append.mp hi with hold | hlast
        · exact hb i hold
        · rw [List.mem_singleton.mp hlast]
          exact hid
      have hwidth := h.toOption_width id hid
      cases hw : s.width id with
      | ok w =>
          rw [hw] at hwidth
          cases hw' : s'.width (ρ id) with
          | ok w' =>
              rw [hw'] at hwidth
              cases hwidth
              exact hnew w
          | error e =>
              rw [hw'] at hwidth
              cases hwidth
      | error e =>
          rw [hw] at hwidth
          cases hw' : s'.width (ρ id) with
          | ok w' =>
              rw [hw'] at hwidth
              cases hwidth
          | error e' => exact .error e e' b

omit h in
/-- Statements mention no channel. -/
theorem mirrors_push (t : NameToken) (op : Operation) (w : Nat) :
    Mirrors ρ P (UnitBuilder.push t op w) (UnitBuilder.push t op w) :=
  fun b hb => .ok b.statements.length (b.pushed t op w) hb

/-- An expression has the same width on its own under both names. -/
theorem naturalWidth_rename (e : Expr) (he : e.Over P) :
    ((e.map ρ).naturalWidth s').toOption = (e.naturalWidth s).toOption := by
  induction e with
  | const v => rfl
  | var id => exact h.toOption_width id ((Expr.over_var id).mp he)
  | binary op lhs rhs ihl ihr =>
      rcases (Expr.over_binary op lhs rhs).mp he with ⟨hl, hr⟩
      rw [Expr.map, Expr.naturalWidth, Expr.naturalWidth]
      -- A comparison has one bit, whatever its sides are.
      by_cases hop : op.isComparison = true
      · rw [if_pos hop, if_pos hop]
      · rw [if_neg hop, if_neg hop, toOption_bind, toOption_bind, ihl hl]
        simp only [toOption_bind, ihr hr]
  | unary op arg ih => exact ih he
  | query c t e _ iht ihe =>
      rcases (Expr.over_query c t e).mp he with ⟨_, ht, he⟩
      rw [Expr.map, Expr.naturalWidth, Expr.naturalWidth, toOption_bind, toOption_bind, iht ht]
      simp only [toOption_bind, ihe he]
  | cast arg w ih =>
      cases w with
      | none => exact ih he
      | some w => rfl

/-- Comparisons are lowered at the same width under both names. -/
theorem operandWidth_rename (op : BinOp) (lhs rhs : Expr) (w : Nat) (hl : lhs.Over P)
    (hr : rhs.Over P) :
    (Expr.operandWidth s' op (lhs.map ρ) (rhs.map ρ) w).toOption
      = (Expr.operandWidth s op lhs rhs w).toOption := by
  unfold Expr.operandWidth
  by_cases hop : op.isComparison = true
  · rw [if_pos hop, if_pos hop, toOption_bind, toOption_bind, naturalWidth_rename h lhs hl]
    simp only [toOption_bind, naturalWidth_rename h rhs hr]
  · rw [if_neg hop, if_neg hop]

variable (element element' : String)

/-- Lowering a renamed expression gives the same operand and the same builder
    but for the names. -/
theorem lower_mirrors (e : Expr) (he : e.Over P) (w : Nat) :
    Mirrors ρ P (e.lower s element w) ((e.map ρ).lower s' element' w) := by
  induction e generalizing w with
  | const v => exact mirrors_pure _
  | var id => exact mirrors_arg h id ((Expr.over_var id).mp he)
  | cast arg v ih => exact ih he (v.getD w)
  | unary op arg ih =>
      rw [Expr.map, Expr.lower, Expr.lower]
      exact mirrors_bind (ih he w) fun x => mirrors_guard _ _ _ <|
        mirrors_bind (mirrors_push _ _ _) fun i => mirrors_pure _
  | binary op lhs rhs ihl ihr =>
      rcases (Expr.over_binary op lhs rhs).mp he with ⟨hl, hr⟩
      rw [Expr.map, Expr.lower, Expr.lower]
      exact mirrors_bind (mirrors_lift _ _ (operandWidth_rename h op lhs rhs w hl hr)) fun ow =>
        mirrors_bind (ihl hl ow) fun x => mirrors_bind (ihr hr ow) fun y =>
          mirrors_guard _ _ _ <| mirrors_bind (mirrors_push _ _ _) fun i => mirrors_pure _
  | query c t e ihc iht ihe =>
      rcases (Expr.over_query c t e).mp he with ⟨hc, ht, he⟩
      rw [Expr.map, Expr.lower, Expr.lower]
      exact mirrors_bind (ihc hc 1) fun x => mirrors_bind (iht ht w) fun y =>
        mirrors_bind (ihe he w) fun z => mirrors_guard _ _ _ <| mirrors_guard _ _ _ <|
          mirrors_bind (mirrors_push _ _ _) fun i => mirrors_pure _

/-- So does lowering a renamed function body. -/
theorem lowerOutput_mirrors (e : Expr) (he : e.Over P) (w : Nat) :
    Mirrors ρ P (e.lowerOutput s element w) ((e.map ρ).lowerOutput s' element' w) := by
  unfold Expr.lowerOutput
  refine mirrors_bind (lower_mirrors h element element' e he w) fun x => ?_
  cases x with
  | res index => exact mirrors_pure _
  | const v => exact mirrors_throw _ _
  | arg slot => exact mirrors_push _ _ _

/-- So do several bodies in a row. -/
theorem lowerOutputs_mirrors (bodies : List (Expr × Nat))
    (hbodies : ∀ body ∈ bodies, body.1.Over P) :
    Mirrors ρ P (Expr.lowerOutputs s element bodies)
      (Expr.lowerOutputs s' element' (bodies.map fun body => (body.1.map ρ, body.2))) := by
  induction bodies with
  | nil => exact mirrors_pure _
  | cons body rest ih =>
      rw [List.forall_mem_cons] at hbodies
      exact mirrors_bind (lowerOutput_mirrors h element element' body.1 hbodies.1 body.2) fun i =>
        mirrors_bind (ih hbodies.2) fun is => mirrors_pure _

open Lowering (initialToken initialToken_map memberTokens gatherUnit) in
/-- Gathering renamed members gives the same outputs and the same builder but
    for the names. Outputs may be renamed in another way than reads. -/
theorem gatherUnit_rename (σ : ChannelId → ChannelId) (clustered : Bool) (position : Nat)
    (fs : List (Func ChannelId Expr)) (b : UnitBuilder) (outs : List UnitOutput)
    (hb : ∀ id ∈ b.args, P id) (hreads : ∀ f ∈ fs, f.expr.Over P)
    (houts : ∀ f ∈ fs, ∀ out ∈ f.output, s'.width? (σ out) = s.width? out) :
    gatherUnit s' element' clustered position (fs.map (Func.map σ (Expr.map ρ))) (b.rename ρ) outs
      = (gatherUnit s element clustered position fs b outs).map fun unit =>
          (unit.1.rename ρ, unit.2) := by
  induction fs generalizing position b outs with
  | nil => rfl
  | cons f fs ih =>
      rw [List.forall_mem_cons] at hreads houts
      have hconst : (f.map σ (Expr.map ρ)).expr.asConst? = f.expr.asConst? := f.expr.asConst?_map
      rw [List.map_cons, gatherUnit, gatherUnit, hconst]
      -- Constant members are left out on both sides.
      cases f.expr.asConst? with
      | some v => exact ih (position + 1) b outs hb hreads.2 houts.2
      | none =>
          have hout : (f.map σ (Expr.map ρ)).output = f.output.map σ := rfl
          simp only [hout, initialToken_map]
          cases hf : f.output with
          | none => rfl
          | some out =>
              have hwidth : (s'.width (σ out)).toOption = (s.width out).toOption := by
                unfold Scope.width
                rw [houts.1 out hf]
                cases s.width? out <;> rfl
              simp only [Option.map_some, Option.bind_eq_bind, Option.bind_some, hwidth]
              cases (s.width out).toOption with
              | none => rfl
              | some w =>
                  -- The piece of the name that a member adds depends on its position, width and
                  -- first token, none of which is renamed.
                  have hbody := lowerOutput_mirrors h element element' f.expr hreads.1 w b hb
                  have hexpr : (f.map σ (Expr.map ρ)).expr = f.expr.map ρ := rfl
                  rw [Option.bind_some, Option.bind_some, hexpr]
                  generalize f.expr.lowerOutput s element w b = r at hbody ⊢
                  generalize (f.expr.map ρ).lowerOutput s' element' w (b.rename ρ) = q at hbody ⊢
                  cases hbody with
                  | ok i b' hb' =>
                      let grown := { b' with
                        name := b'.name ++ memberTokens clustered position w (initialToken f) }
                      exact ih (position + 1) grown _ hb' hreads.2 houts.2
                  | error e e' b' => rfl

end Steps

end Lowering

/-- A functional unit depends on shape and widths only. Let `ρ` rename the
    channels `P` of one scope to channels of another. Function bodies over `P`
    and their renamings are lowered with the same success, through builders that
    differ in the channels of the argument slots only: results, statements,
    argument widths, name and graph are the same. Therefore a function or a
    cluster of a process and its renaming in another process have the same unit,
    with its name, its parameters and its body, and lowering gathers that unit
    in both. -/
theorem units_depend_on_shape_and_widths (s s' : Scope) (ρ : ChannelId → ChannelId)
    (P : ChannelId → Prop) (h : s.Renames s' ρ P) :
    (∀ (element element' : String) (bodies : List (Expr × Nat)),
      (∀ body ∈ bodies, ∀ id ∈ body.1.addReads [], P id) →
      let bodies' := bodies.map fun body => (body.1.map ρ, body.2)
      (∀ indices b, Expr.lowerOutputs s element bodies .empty = .ok indices b →
        Expr.lowerOutputs s' element' bodies' .empty
          = .ok indices { b with args := b.args.map ρ }) ∧
      ∀ indices b', Expr.lowerOutputs s' element' bodies' .empty = .ok indices b' →
        ∃ b, Expr.lowerOutputs s element bodies .empty = .ok indices b) ∧
    ∀ (el : Element ChannelId Expr) (clustered : Bool) (funcs : List (Func ChannelId Expr))
      (σ : ChannelId → ChannelId), el.members? = some (clustered, funcs) →
      (∀ id ∈ el.reads, P id) →
      (∀ f ∈ funcs, ∀ out ∈ f.output, s'.width? (σ out) = s.width? out) →
      let el' := el.map σ (Expr.map ρ)
      let funcs' := funcs.map (Func.map σ (Expr.map ρ))
      el'.members? = some (clustered, funcs') ∧ el'.unit? s' = el.unit? s ∧
      ∀ (sub sub' : Subject) (l l₁ l' l₁' : Lowering) (ms ms' : Lowering.Members),
        sub.scope = s → sub'.scope = s' →
        Lowering.addMembers sub (el.print s) clustered 0 funcs .empty l = .ok ms l₁ →
        Lowering.addMembers sub' (el'.print s') clustered 0 funcs' .empty l' = .ok ms' l₁' →
        ms'.unit = ms.unit ∧ ms'.builder.graph = ms.builder.graph := by
  have hnone : ∀ id ∈ UnitBuilder.empty.args, P id := fun id hid => absurd hid List.not_mem_nil
  refine ⟨fun element element' bodies hbodies => ?_,
    fun el clustered funcs σ hmembers hreads houts => ?_⟩
  · have hrun := lowerOutputs_mirrors h element element' bodies hbodies .empty hnone
    refine ⟨fun indices b hok => ?_, fun indices b' hok => ?_⟩
    · rw [hok] at hrun
      exact hrun.of_ok
    · change Mirrored ρ P _ (Expr.lowerOutputs s' element' _ .empty) at hrun
      rw [hok] at hrun
      exact hrun.ok_of
  · have hmembers' : (el.map σ (Expr.map ρ)).members?
        = some (clustered, funcs.map (Func.map σ (Expr.map ρ))) := by
      cases el with
      | func f =>
          cases hmembers
          rfl
      | cluster fs =>
          cases hmembers
          rfl
      | _ => cases hmembers
    -- What the element reads is what its functions read.
    have hover : ∀ f ∈ funcs, f.expr.Over P := by
      intro f hf id hid
      refine hreads id ?_
      rw [Element.reads_of_members hmembers]
      exact (mem_readsOfFuncs funcs id).mpr ⟨f, hf, hid⟩
    have hgather := gatherUnit_rename h (el.print s) ((el.map σ (Expr.map ρ)).print s') σ clustered
      0 funcs .empty [] hnone hover houts
    refine ⟨hmembers', ?_, ?_⟩
    · unfold Element.unit?
      rw [hmembers, hmembers']
      simp only [Option.bind_eq_bind, Option.bind_some]
      change (Lowering.gatherUnit s' _ clustered 0 _ (UnitBuilder.empty.rename ρ) []).bind _ = _
      rw [hgather, Option.bind_map]
      rfl
    · intro sub sub' l l₁ l' l₁' ms ms' hsub hsub' hrun hrun'
      subst hsub hsub'
      rcases Lowering.gathered_of_addMembers sub _ clustered 0 funcs .empty ms l l₁ hrun with
        ⟨τ, hms⟩
      rcases Lowering.gathered_of_addMembers sub' _ clustered 0 _ .empty ms' l' l₁' hrun' with
        ⟨τ', hms'⟩
      -- The run of lowering gathers what the pure definition gathers.
      have hunit := (Lowering.gathered_unit hms').symm.trans
        (hgather.trans (congrArg _ (Lowering.gathered_unit hms)))
      rw [Option.map_some, Option.some.injEq, Prod.mk.injEq] at hunit
      simp only [Lowering.Members.unit, hunit.1, hunit.2]
      exact ⟨rfl, rfl⟩

/-- A cluster of one process and its renaming in another, where the channels are
    declared in another order and under other names. -/
theorem units_depend_on_shape_and_widths_reordered :
    let s : Scope := ⟨[⟨"a", .int 8, .port .input, 0⟩, ⟨"b", .int 16, .port .input, 1⟩,
      ⟨"x", .int 16, .port .output, 2⟩, ⟨"y", .int 1, .port .output, 3⟩]⟩
    let s' : Scope := ⟨[⟨"u", .int 16, .internal, 0⟩, ⟨"v", .int 16, .internal, 1⟩,
      ⟨"w", .int 1, .internal, 2⟩, ⟨"z", .int 8, .internal, 3⟩]⟩
    let ρ : ChannelId → ChannelId := fun id => if id = 0 then 3 else 1
    let σ : ChannelId → ChannelId := fun id => if id = 2 then 0 else 2
    let bodies := [(Expr.binary .add (.var 0) (.cast (.var 1) (some 4)), 16),
      (.binary .lt (.var 1) (.var 0), 1)]
    let funcs : List (Func ChannelId Expr) := [⟨.binary .add (.var 0) (.var 1), none, some 2⟩,
      ⟨.binary .lt (.var 1) (.var 0), some ⟨1, some (.const 1)⟩, some 3⟩]
    s.Renames s' ρ (· < 2) ∧ (∀ body ∈ bodies, ∀ id ∈ body.1.addReads [], id < 2) ∧
      (∃ b, Expr.lowerOutputs s "f" bodies .empty = .ok [0, 1] b ∧ b.args = [0, 1] ∧
        Expr.lowerOutputs s' "g" (bodies.map fun body => (body.1.map ρ, body.2)) .empty
          = .ok [0, 1] { b with args := [3, 1] }) ∧
      (∀ id ∈ Element.reads (.cluster funcs), id < 2) ∧
      (∀ f ∈ funcs, ∀ out ∈ f.output, s'.width? (σ out) = s.width? out) ∧
      ∃ fu, Element.unit? s (.cluster funcs) = some fu ∧
        Element.unit? s' (.cluster (funcs.map (Func.map σ (Expr.map ρ)))) = some fu ∧
        fu.name = "func_0add1_16_p0_1lt0_init1_1_p1" ∧ fu.params = [8, 16, 16, 1, 16, 1] := by
  intro s s' ρ σ bodies funcs
  have hrenames : s.Renames s' ρ (· < 2) := by
    have hapart : ∀ id < 2, ∀ id' < 2, ρ id = ρ id' → id = id' := by decide
    exact ⟨fun id id' hid hid' => hapart id hid id' hid', by decide⟩
  have hbodies : ∀ body ∈ bodies, ∀ id ∈ body.1.addReads [], id < 2 := by decide
  have hreads : ∀ id ∈ Element.reads (.cluster funcs), id < 2 := by decide
  have houts : ∀ f ∈ funcs, ∀ out ∈ f.output, s'.width? (σ out) = s.width? out := by decide
  have hrun : ∃ b, Expr.lowerOutputs s "f" bodies .empty = .ok [0, 1] b ∧ b.args = [0, 1] :=
    ⟨_, rfl, rfl⟩
  have hunit : ∃ fu, Element.unit? s (.cluster funcs) = some fu ∧
      fu.name = "func_0add1_16_p0_1lt0_init1_1_p1" ∧ fu.params = [8, 16, 16, 1, 16, 1] :=
    ⟨_, rfl, by decide +kernel, rfl⟩
  have hall := units_depend_on_shape_and_widths s s' ρ (· < 2) hrenames
  rcases hrun with ⟨b, hok, hargs⟩
  rcases hunit with ⟨fu, hfu, hname, hparams⟩
  refine ⟨hrenames, hbodies, ⟨b, hok, hargs, ?_⟩, hreads, houts, fu, hfu, ?_, hname, hparams⟩
  · have hmap : b.args.map ρ = [3, 1] := by
      rw [hargs]
      rfl
    rw [← hmap]
    exact (hall.1 "f" "g" bodies hbodies).1 [0, 1] b hok
  · exact (hall.2 (.cluster funcs) true funcs σ rfl hreads houts).2.1.trans hfu

end DataflowCircuit
