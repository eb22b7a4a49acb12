import DataflowCircuit.Proofs.FunctionalUnit.Degenerate

/-!
# Widths of Casts

A cast to a width adds no statement. It only tells the expression under it at
which width to compute, so whether its value really has that width depends on
what stands there: an operation takes the width, but a channel keeps its own, a
literal keeps its value, and another cast puts its own width in the place of the
outer one. What the operand of a cast can hold is therefore said of the
expression under the cast, and the condition below is exact.

The operand is handed back in the middle of a lowering that goes on and may have
begun with other bodies in the builder. Its argument or statement is looked up
in the builder at the end, which is allowed because builders only grow. To speak
of every cast at every position, the calls that lowering makes on the parts of a
body are listed with the width and the builder each of them starts from.

## Main definitions

* `Operand.HoldsAtMost`: Has an operand at most a given number of bits?
* `Expr.StaysWithin`: The same said of an expression.
* `Visit`, `Expr.visits`: The calls that lower the parts of an expression.
* `Visit.SucceedsBetween`: A call that succeeds in the course of a lowering.

## Theorems

* `lower_holdsAtMost_iff`: The operand of an expression has at most so many bits
  exactly if the expression stays within them.
* `visits_expr`: Lowering visits every part of an expression once.
* `visits_succeed`: If lowering succeeds, all visits do.
* `cast_holds_width_iff`: When the value of a cast has the width of the cast.
-/

namespace DataflowCircuit

/-- Has the operand at most `width` bits? An argument has the width of its
    channel, a result that of its statement, and a constant is its own value. -/
def Operand.HoldsAtMost (s : Scope) (b : UnitBuilder) (width : Nat) : Operand → Prop
  | .arg slot => ∃ id w, b.args[slot]? = some id ∧ s.width id = .ok w ∧ w ≤ width
  | .res i => ∃ st, b.statements[i]? = some st ∧ st.width ≤ width
  | .const v => v < 2 ^ width

namespace Expr

open UnitBuilder

/-- Has an expression at most `width` bits if it is lowered at `n`? Only the
    operations look at `n`, and of these a comparison does not. -/
def StaysWithin (s : Scope) (width : Nat) : Expr → Nat → Prop
  | .const v, _ => v < 2 ^ width
  | .var id, _ => ∃ w, s.width id = .ok w ∧ w ≤ width
  | .cast e w, n => e.StaysWithin s width (w.getD n)
  | .unary _ _, n => n ≤ width
  | .binary op _ _, n => resultWidth op n ≤ width
  | .query _ _ _, n => n ≤ width

section Lowering

variable {s : Scope} {element : String}

/-- A pushed statement is found under its number in every later builder. -/
theorem holdsAtMost_pushed_iff (width : Nat) (b b' : UnitBuilder) (t : NameToken)
    (op : Operation) (w : Nat) (hext : Extends (b.pushed t op w) b') :
    (Operand.res b.statements.length).HoldsAtMost s b' width ↔ w ≤ width := by
  have hlast : (b.pushed t op w).statements[b.statements.length]?
      = some ⟨b.statements.length, op, w⟩ := by
    rw [pushed_statements]
    exact List.getElem?_concat_length
  have hfound : b'.statements[b.statements.length]? = some ⟨b.statements.length, op, w⟩ :=
    getElem?_of_prefix _ _ hext.statements _ _ hlast
  constructor
  · rintro ⟨st, hst, hle⟩
    rw [hfound, Option.some.injEq] at hst
    rw [← hst] at hle
    exact hle
  · intro hle
    exact ⟨_, hfound, hle⟩

/-- The argument of a channel is found in its slot in every later builder. -/
theorem holdsAtMost_arg_iff (width id slot : Nat) (b b' : UnitBuilder)
    (hslot : b.args[slot]? = some id) (hext : Extends b b') :
    (Operand.arg slot).HoldsAtMost s b' width ↔ ∃ w, s.width id = .ok w ∧ w ≤ width := by
  have hfound : b'.args[slot]? = some id := getElem?_of_prefix _ _ hext.args _ _ hslot
  constructor
  · rintro ⟨id', w, hid, hw, hle⟩
    rw [hfound, Option.some.injEq] at hid
    rw [← hid] at hw
    exact ⟨w, hw, hle⟩
  · rintro ⟨w, hw, hle⟩
    exact ⟨id, w, hfound, hw, hle⟩

/-- What the operand of an expression can hold is read off the expression, also
    when lowering has gone on since. -/
theorem lower_holdsAtMost_iff (width : Nat) (e : Expr) (n : Nat) (a : Operand)
    (b b₁ b' : UnitBuilder) (h : e.lower s element n b = .ok a b₁) (hext : Extends b₁ b') :
    a.HoldsAtMost s b' width ↔ e.StaysWithin s width n := by
  induction e generalizing n a b b₁ with
  | const v =>
      rcases lower_const_ok s element v n a b b₁ h with ⟨rfl, _⟩
      exact Iff.rfl
  | var id =>
      rcases arg_ok s id a b b₁ h with ⟨slot, hslot, rfl, rfl⟩ | ⟨_, w, _, rfl, rfl⟩
      -- The slot was there before, so it is looked up in the old builder.
      · rcases List.idxOf?_eq_some_iff.mp hslot with ⟨hlt, hid, _⟩
        exact holdsAtMost_arg_iff width id slot b₁ b'
          (List.getElem?_eq_some_iff.mpr ⟨hlt, hid⟩) hext
      · exact holdsAtMost_arg_iff width id b.args.length (b.addArg id w) b'
          List.getElem?_concat_length hext
  -- A cast pushes nothing: its operand is the one of its argument, lowered at another width.
  | cast e w ih => exact ih (w.getD n) a b b₁ h hext
  | unary op e _ =>
      rcases lower_unary_ok s element op e n a b b₁ h with ⟨x, b₂, _, _, rfl, rfl⟩
      exact holdsAtMost_pushed_iff width b₂ b' _ _ n hext
  | binary op lhs rhs _ _ =>
      rcases lower_binary_ok s element op lhs rhs n a b b₁ h with
        ⟨_, x, _, y, b₂, _, _, _, _, rfl, rfl⟩
      exact holdsAtMost_pushed_iff width b₂ b' _ _ _ hext
  | query c t e _ _ _ =>
      rcases lower_query_ok s element c t e n a b b₁ h with
        ⟨x, _, y, _, z, b₂, _, _, _, _, _, rfl, rfl⟩
      exact holdsAtMost_pushed_iff width b₂ b' _ _ n hext

end Lowering

/-- A call that lowers an expression at a width, with the builder it starts
    from. -/
structure Visit where
  expr : Expr
  width : Nat
  before : UnitBuilder

/-- What follows a step that succeeds. -/
def afterStep {α : Type} (m : Step α) (b : UnitBuilder) (k : α → UnitBuilder → List Visit) :
    List Visit :=
  match m b with
  | .ok a b' => k a b'
  | .error _ _ => []

/-- What follows is taken from the result of the step. -/
theorem afterStep_of_ok {α : Type} {m : Step α} {a : α} {b b' : UnitBuilder}
    (h : m b = .ok a b') (k : α → UnitBuilder → List Visit) : afterStep m b k = k a b' := by
  rw [afterStep, h]

/-- The calls that lowering an expression consists of, outermost first. -/
def visits (s : Scope) (element : String) : Expr → Nat → UnitBuilder → List Visit
  | .const v, n, b => [⟨.const v, n, b⟩]
  | .var id, n, b => [⟨.var id, n, b⟩]
  | .cast e w, n, b => ⟨.cast e w, n, b⟩ :: e.visits s element (w.getD n) b
  | .unary op e, n, b => ⟨.unary op e, n, b⟩ :: e.visits s element n b
  | .binary op lhs rhs, n, b =>
    ⟨.binary op lhs rhs, n, b⟩ :: afterStep (lift (operandWidth s op lhs rhs n)) b fun w _ =>
      lhs.visits s element w b ++ afterStep (lhs.lower s element w) b fun _ b₁ =>
        rhs.visits s element w b₁
  | .query c t e, n, b =>
    ⟨.query c t e, n, b⟩ :: (c.visits s element 1 b ++
      afterStep (c.lower s element 1) b fun _ b₁ => t.visits s element n b₁ ++
        afterStep (t.lower s element n) b₁ fun _ b₂ => e.visits s element n b₂)

section Visits

variable {s : Scope} {element : String}

/-- The visits of a binary operation whose left side succeeds. -/
theorem visits_binary_of_ok (op : BinOp) (lhs rhs : Expr) (n w : Nat) (x : Operand)
    (b b₁ : UnitBuilder) (hw : operandWidth s op lhs rhs n = .ok w)
    (hx : lhs.lower s element w b = .ok x b₁) :
    (Expr.binary op lhs rhs).visits s element n b = ⟨.binary op lhs rhs, n, b⟩ ::
      (lhs.visits s element w b ++ rhs.visits s element w b₁) := by
  rw [visits, afterStep_of_ok (lift_ok_iff.mpr ⟨hw, rfl⟩), afterStep_of_ok hx]

/-- The visits of a conditional whose condition and first branch succeed. -/
theorem visits_query_of_ok (c t e : Expr) (n : Nat) (x y : Operand) (b b₁ b₂ : UnitBuilder)
    (hx : c.lower s element 1 b = .ok x b₁) (hy : t.lower s element n b₁ = .ok y b₂) :
    (Expr.query c t e).visits s element n b = ⟨.query c t e, n, b⟩ ::
      (c.visits s element 1 b ++ (t.visits s element n b₁ ++ e.visits s element n b₂)) := by
  rw [visits, afterStep_of_ok hx, afterStep_of_ok hy]

/-- If lowering succeeds, it visits every part of an expression, in order. -/
theorem visits_expr (e : Expr) (n : Nat) (a : Operand) (b b' : UnitBuilder)
    (h : e.lower s element n b = .ok a b') :
    (e.visits s element n b).map Visit.expr = e.subexpressions := by
  induction e generalizing n a b b' with
  | const v => rfl
  | var id => rfl
  | cast e w ih =>
      rw [visits, List.map_cons, ih (w.getD n) a b b' h]
      rfl
  | unary op e ih =>
      rcases lower_unary_ok s element op e n a b b' h with ⟨x, b₁, hx, _, _, _⟩
      rw [visits, List.map_cons, ih n x b b₁ hx]
      rfl
  | binary op lhs rhs ihl ihr =>
      rcases lower_binary_ok s element op lhs rhs n a b b' h with
        ⟨w, x, b₁, y, b₂, hw, hx, hy, _⟩
      rw [visits_binary_of_ok op lhs rhs n w x b b₁ hw hx, List.map_cons, List.map_append,
        ihl w x b b₁ hx, ihr w y b₁ b₂ hy]
      rfl
  | query c t e ihc iht ihe =>
      rcases lower_query_ok s element c t e n a b b' h with
        ⟨x, b₁, y, b₂, z, b₃, hx, hy, hz, _⟩
      rw [visits_query_of_ok c t e n x y b b₁ b₂ hx hy, List.map_cons, List.map_append,
        List.map_append, ihc 1 x b b₁ hx, iht n y b₁ b₂ hy, ihe n z b₂ b₃ hz, subexpressions,
        List.append_assoc]

/-- A call that succeeds, from a builder grown from `b` to one that grows into
    `b'`. -/
def Visit.SucceedsBetween (s : Scope) (element : String) (b b' : UnitBuilder) (v : Visit) :
    Prop :=
  ∃ a b₁, v.expr.lower s element v.width v.before = .ok a b₁ ∧ Extends b v.before ∧
    Extends b₁ b'

/-- The bounds of a call may be widened on both sides. -/
theorem Visit.SucceedsBetween.grow {b₀ b b' b'' : UnitBuilder} {v : Visit}
    (h : v.SucceedsBetween s element b b') (hleft : Extends b₀ b) (hright : Extends b' b'') :
    v.SucceedsBetween s element b₀ b'' := by
  rcases h with ⟨a, b₁, ha, hbefore, hafter⟩
  exact ⟨a, b₁, ha, hleft.trans hbefore, hafter.trans hright⟩

/-- A call that succeeds is one of those it consists of. -/
theorem succeedsBetween_self {e : Expr} {n : Nat} {a : Operand} {b b' : UnitBuilder}
    (h : e.lower s element n b = .ok a b') :
    Visit.SucceedsBetween s element b b' ⟨e, n, b⟩ :=
  ⟨a, b', h, Extends.refl b, Extends.refl b'⟩

/-- If lowering succeeds, so does every call it consists of. -/
theorem visits_succeed (e : Expr) (n : Nat) (a : Operand) (b b' : UnitBuilder)
    (h : e.lower s element n b = .ok a b') :
    ∀ v ∈ e.visits s element n b, v.SucceedsBetween s element b b' := by
  induction e generalizing n a b b' with
  | const u => exact List.forall_mem_singleton.mpr (succeedsBetween_self h)
  | var id => exact List.forall_mem_singleton.mpr (succeedsBetween_self h)
  | cast e w ih =>
      exact List.forall_mem_cons.mpr ⟨succeedsBetween_self h, ih (w.getD n) a b b' h⟩
  | unary op e ih =>
      rcases lower_unary_ok s element op e n a b b' h with ⟨x, b₁, hx, _, _, rfl⟩
      refine List.forall_mem_cons.mpr ⟨succeedsBetween_self h, fun v hv => ?_⟩
      exact (ih n x b b₁ hx v hv).grow (Extends.refl b) (extends_pushed b₁ _ _ _)
  | binary op lhs rhs ihl ihr =>
      rcases lower_binary_ok s element op lhs rhs n a b b' h with
        ⟨w, x, b₁, y, b₂, hw, hx, hy, _, _, rfl⟩
      -- Each side is bounded by what was lowered before and after it.
      have hleft := lower_extends s element lhs w x b b₁ hx
      have hright := lower_extends s element rhs w y b₁ b₂ hy
      have hpush := extends_pushed b₂ (.binary op x.mnemonic y.mnemonic (x = y))
        (.binary op x y) (resultWidth op n)
      rw [visits_binary_of_ok op lhs rhs n w x b b₁ hw hx, List.forall_mem_cons,
        List.forall_mem_append]
      refine ⟨succeedsBetween_self h, fun v hv => ?_, fun v hv => ?_⟩
      · exact (ihl w x b b₁ hx v hv).grow (Extends.refl b) (hright.trans hpush)
      · exact (ihr w y b₁ b₂ hy v hv).grow hleft hpush
  | query c t e ihc iht ihe =>
      rcases lower_query_ok s element c t e n a b b' h with
        ⟨x, b₁, y, b₂, z, b₃, hx, hy, hz, _, _, _, rfl⟩
      -- The same with three parts, each between its neighbours.
      have hcond := lower_extends s element c 1 x b b₁ hx
      have hthen := lower_extends s element t n y b₁ b₂ hy
      have helse := lower_extends s element e n z b₂ b₃ hz
      have hpush := extends_pushed b₃ (.query y.mnemonic x.mnemonic z.mnemonic)
        (.select x y z) n
      rw [visits_query_of_ok c t e n x y b b₁ b₂ hx hy, List.forall_mem_cons,
        List.forall_mem_append, List.forall_mem_append]
      refine ⟨succeedsBetween_self h, fun v hv => ?_, fun v hv => ?_, fun v hv => ?_⟩
      · exact (ihc 1 x b b₁ hx v hv).grow (Extends.refl b) ((hthen.trans helse).trans hpush)
      · exact (iht n y b₁ b₂ hy v hv).grow hcond (helse.trans hpush)
      · exact (ihe n z b₂ b₃ hz v hv).grow (hcond.trans hthen) hpush

end Visits

/-- When a function body is lowered, whatever the builder holds, every part of it
    is lowered in turn, and the operand handed back for a cast to `w` bits has at
    most `w` bits exactly if the expression under the cast stays within them when
    it is lowered at `w`: a channel must be that narrow itself, a literal that
    small, and an inner cast must not ask for more. -/
theorem cast_holds_width_iff (s : Scope) (element : String) (body : Expr) (width i : Nat)
    (b b' : UnitBuilder) (h : body.lowerOutput s element width b = .ok i b') :
    (body.visits s element width b).map Visit.expr = body.subexpressions ∧
    ∀ v ∈ body.visits s element width b,
      ∃ a b₁, v.expr.lower s element v.width v.before = .ok a b₁ ∧ Extends b v.before ∧
        Extends b₁ b' ∧
        ∀ e w, v.expr = .cast e (some w) → (a.HoldsAtMost s b' w ↔ e.StaysWithin s w w) := by
  -- A body is an expression and at most one forward after it, which only grows the builder.
  have hlower : ∃ a b₁, body.lower s element width b = .ok a b₁ ∧ Extends b₁ b' := by
    rcases lowerOutput_ok s element body width i b b' h with hres | ⟨slot, b₁, harg, _, rfl⟩
    · exact ⟨.res i, b', hres, Extends.refl b'⟩
    · exact ⟨.arg slot, b₁, harg, extends_pushed b₁ _ _ _⟩
  rcases hlower with ⟨a, b₁, ha, hend⟩
  refine ⟨visits_expr body width a b b₁ ha, fun v hv => ?_⟩
  rcases (visits_succeed body width a b b₁ ha v hv).grow (Extends.refl b) hend with
    ⟨x, b₂, hx, hbefore, hafter⟩
  refine ⟨x, b₂, hx, hbefore, hafter, fun e w hcast => ?_⟩
  rw [lower_holdsAtMost_iff w v.expr v.width x v.before b₂ b' hx hafter, hcast]
  exact Iff.rfl

/-- In `int(a + b, 4) - int(b, 4) * int(int(a ^ b, 8), 4)`, with `a` of 8 and `b`
    of 16 bits, the first cast has a value of 4 bits, but the second one has all 16
    bits of `b`, and the third one the 8 bits of the cast inside. -/
theorem cast_of_channel_keeps_its_width :
    let s : Scope := ⟨[⟨"a", .int 8, .port .input, 0⟩, ⟨"b", .int 16, .port .input, 1⟩]⟩
    let sum : Expr := .cast (.binary .add (.var 0) (.var 1)) (some 4)
    let channel : Expr := .cast (.var 1) (some 4)
    let nested : Expr := .cast (.cast (.binary .xor (.var 0) (.var 1)) (some 8)) (some 4)
    let body : Expr := .binary .minus sum (.binary .mul channel nested)
    ∃ i b', body.lowerOutput s "" 8 .empty = .ok i b' ∧
      (∃ n b a b₁, sum.lower s "" n b = .ok a b₁ ∧ a.HoldsAtMost s b' 4) ∧
      (∃ n b a b₁, channel.lower s "" n b = .ok a b₁ ∧ ¬ a.HoldsAtMost s b' 4) ∧
      ∃ n b a b₁, nested.lower s "" n b = .ok a b₁ ∧ ¬ a.HoldsAtMost s b' 4 := by
  intro s sum channel nested body
  have hrun : ∃ i b', body.lowerOutput s "" 8 .empty = .ok i b' := ⟨_, _, rfl⟩
  rcases hrun with ⟨i, b', hrun⟩
  rcases cast_holds_width_iff s "" body 8 i .empty b' hrun with ⟨hparts, hvisits⟩
  -- The theorem speaks of visits. Each cast in the body is one of them.
  have hvisited : ∀ e w, .cast e (some w) ∈ body.subexpressions →
      ∃ n b a b₁, (Expr.cast e (some w)).lower s "" n b = .ok a b₁ ∧
        (a.HoldsAtMost s b' w ↔ e.StaysWithin s w w) := by
    intro e w hmem
    rw [← hparts] at hmem
    rcases List.mem_map.mp hmem with ⟨v, hv, hexpr⟩
    rcases hvisits v hv with ⟨a, b₁, ha, _, _, hiff⟩
    rw [hexpr] at ha
    exact ⟨v.width, v.before, a, b₁, ha, hiff e w hexpr⟩
  rcases hvisited (.binary .add (.var 0) (.var 1)) 4 (by decide) with ⟨n, b, a, b₁, ha, hiff⟩
  rcases hvisited (.var 1) 4 (by decide) with ⟨m, c, x, c₁, hx, hiff'⟩
  rcases hvisited (.cast (.binary .xor (.var 0) (.var 1)) (some 8)) 4 (by decide) with
    ⟨k, d, y, d₁, hy, hiff''⟩
  refine ⟨i, b', hrun, ⟨n, b, a, b₁, ha, hiff.mpr (Nat.le_refl 4)⟩,
    ⟨m, c, x, c₁, hx, fun hholds => ?_⟩, ⟨k, d, y, d₁, hy, fun hholds => ?_⟩⟩
  -- The channel has 16 bits.
  · rcases hiff'.mp hholds with ⟨w, hw, hle⟩
    cases hw
    exact absurd hle (by decide)
  -- The inner cast asks for 8 bits, and the outer one cannot take them back.
  · have hle : (8 : Nat) ≤ 4 := hiff''.mp hholds
    exact absurd hle (by decide)

end Expr

end DataflowCircuit
