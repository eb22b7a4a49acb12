import DataflowCircuit.Proofs.FunctionalUnit.Members

/-!
# Reading Order

The channels of an expression are found twice. Counting walks over the
expression and adds every channel it meets; lowering asks for an argument slot
wherever it meets one, but it also sizes operands, checks what it has lowered
and stops at the first error. A copy hands out its outputs by position, so the
two have to meet the channels in the same order, also when several expressions
go through one builder.

Equality alone is no induction hypothesis here, since a lowering that stops has
only found some of the channels. What is carried through the sequence is both
halves at once: a step that succeeds has added exactly the reads of its
expression, and a step that stops has added a beginning of them. A sequence
joins the halves, because reading more only appends.

## Main definitions

* `UnitBuilder.Finds`: A step adds given arguments, or stops among them.
* `LoweringTask`: An expression to be lowered as an operand or as a body.
* `LoweringTask.runAll`: Tasks run one after another through one builder.

## Theorems

* `addReads_prefix`: Reading an expression only appends.
* `finds_bind`: The arguments a sequence adds.
* `finds_lower`, `finds_lowerOutput`: Lowering finds the reads of an expression.
* `runAll_reading_order`: Tasks that share a builder find their reads in order,
  a sequence that stops finds a beginning of them, and literals find nothing.
-/

namespace DataflowCircuit

/-- Reads are only appended. -/
theorem addRead_prefix (refs : List ChannelId) (id : ChannelId) : refs <+: addRead refs id := by
  unfold addRead
  split
  · exact List.prefix_rfl
  · exact List.prefix_append _ _

/-- The reads of an expression come after those that were there. -/
theorem Expr.addReads_prefix (e : Expr) (refs : List ChannelId) : refs <+: e.addReads refs := by
  induction e generalizing refs with
  | const v => exact List.prefix_rfl
  | var id => exact addRead_prefix refs id
  | cast arg w ih => exact ih refs
  | unary op arg ih => exact ih refs
  | binary op lhs rhs ihl ihr => exact (ihl refs).trans (ihr _)
  | query c t e ihc iht ihe => exact ((ihc refs).trans (iht _)).trans (ihe _)

namespace UnitBuilder

section Finding

variable {α β : Type} {f g : List ChannelId → List ChannelId}

/-- If a step succeeded, its argument slots are `refs`. If it stopped, they are a
    beginning of that. -/
def Found (refs : List ChannelId) : EStateM.Result Error UnitBuilder α → Prop
  | .ok _ b => b.args = refs
  | .error _ b => b.args <+: refs

/-- A step that turns the argument slots into `f` of them, or stops on the
    way. -/
def Finds (f : List ChannelId → List ChannelId) (m : Step α) : Prop :=
  ∀ b, Found (f b.args) (m b)

/-- A step that only returns finds nothing. -/
theorem finds_pure (a : α) : Finds id (pure a : Step α) :=
  fun _ => rfl

/-- Stopping right away is a beginning of whatever only appends. -/
theorem finds_throw (e : Error) (hf : ∀ refs, refs <+: f refs) : Finds f (throw e : Step α) :=
  fun b => hf b.args

/-- Neither a looked up value nor its absence is a read. -/
theorem finds_lift (x : Except Error α) : Finds id (lift x) := by
  cases x with
  | ok a => exact finds_pure a
  | error e => exact finds_throw e fun _ => List.prefix_rfl

/-- A statement reads nothing that was not found before. -/
theorem finds_push (t : NameToken) (op : Operation) (w : Nat) : Finds id (push t op w) :=
  fun _ => rfl

/-- A sequence adds what its first part adds, and then what the rest does. -/
theorem finds_bind {m : Step α} {k : α → Step β} (hm : Finds f m) (hk : ∀ a, Finds g (k a))
    (hg : ∀ refs, refs <+: g refs) : Finds (g ∘ f) (m >>= k) := by
  intro b
  have hfirst := hm b
  rw [bind_apply]
  cases hrun : m b with
  | ok a b₁ =>
      rw [hrun] at hfirst
      have hargs : b₁.args = f b.args := hfirst
      have hrest := hk a b₁
      rw [hargs] at hrest
      exact hrest
  | error e b₁ =>
      rw [hrun] at hfirst
      have hargs : b₁.args <+: f b.args := hfirst
      -- The first part stopped, and what it found is a beginning of its own reads, which the rest
      -- would only have appended to.
      exact hargs.trans (hg _)

/-- A check adds nothing, and what follows it only appends. -/
theorem finds_guard (c : Prop) [Decidable c] (e : Error) {k : PUnit → Step β}
    (hk : Finds f (k PUnit.unit)) (hf : ∀ refs, refs <+: f refs) :
    Finds f (if c then throw e >>= k else k PUnit.unit) := by
  split
  · exact finds_throw e hf
  · exact hk

/-- Asking for the operand of a channel is a read of that channel. -/
theorem finds_arg (s : Scope) (id : ChannelId) :
    Finds (fun refs => addRead refs id) (arg s id) := by
  intro b
  cases hrun : arg s id b with
  | ok a b' => exact Expr.lower_args s "" (.var id) 0 a b b' hrun
  | error e b' =>
      -- A channel that has a slot never fails, and an unknown width is noticed before the slot is
      -- made.
      cases hslot : b.args.idxOf? id with
      | some slot =>
          rw [arg, get_bind_apply, hslot] at hrun
          cases hrun
      | none =>
          rw [arg, get_bind_apply, hslot] at hrun
          cases hwidth : s.width id with
          | ok w =>
              rw [hwidth] at hrun
              cases hrun
          | error fault =>
              rw [hwidth] at hrun
              cases hrun
              exact addRead_prefix b.args id

end Finding

end UnitBuilder

namespace Expr

open UnitBuilder

variable (s : Scope) (element : String)

/-- Lowering an expression finds its reads. -/
theorem finds_lower (e : Expr) (w : Nat) :
    Finds (fun refs => e.addReads refs) (e.lower s element w) := by
  induction e generalizing w with
  | const v => exact finds_pure _
  | var id => exact finds_arg s id
  -- A cast reads what its argument reads.
  | cast arg v ih => exact ih (v.getD w)
  | unary op arg ih =>
      -- Every later step has to append only, since a failure in the middle must leave a beginning.
      refine finds_bind (ih w) (fun x => ?_) fun _ => List.prefix_rfl
      refine finds_guard _ _ ?_ fun _ => List.prefix_rfl
      exact finds_bind (finds_push _ _ _) (fun _ => finds_pure _) fun _ => List.prefix_rfl
  | binary op lhs rhs ihl ihr =>
      refine finds_bind (finds_lift _) (fun ow => ?_)
        fun refs => addReads_prefix (.binary op lhs rhs) refs
      refine finds_bind (ihl ow) (fun x => ?_) fun refs => rhs.addReads_prefix refs
      refine finds_bind (ihr ow) (fun y => ?_) fun _ => List.prefix_rfl
      refine finds_guard _ _ ?_ fun _ => List.prefix_rfl
      exact finds_bind (finds_push _ _ _) (fun _ => finds_pure _) fun _ => List.prefix_rfl
  | query c t e ihc iht ihe =>
      refine finds_bind (ihc 1) (fun x => ?_)
        fun refs => (t.addReads_prefix refs).trans (e.addReads_prefix _)
      refine finds_bind (iht w) (fun y => ?_) fun refs => e.addReads_prefix refs
      refine finds_bind (ihe w) (fun z => ?_) fun _ => List.prefix_rfl
      refine finds_guard _ _ ?_ fun _ => List.prefix_rfl
      refine finds_guard _ _ ?_ fun _ => List.prefix_rfl
      exact finds_bind (finds_push _ _ _) (fun _ => finds_pure _) fun _ => List.prefix_rfl

/-- A literal under casts is lowered to itself. -/
theorem lower_of_const (e : Expr) (v w : Nat) (b : UnitBuilder) (h : e.asConst? = some v) :
    e.lower s element w b = .ok (.const v) b := by
  induction e generalizing w with
  | const u =>
      cases h
      rfl
  | cast arg u ih => exact ih (u.getD w) h
  | var id => cases h
  | binary op lhs rhs => cases h
  | unary op arg => cases h
  | query c t e => cases h

/-- Lowering a function body finds the reads of the body. -/
theorem finds_lowerOutput (e : Expr) (w : Nat) :
    Finds (fun refs => e.addReads refs) (e.lowerOutput s element w) := by
  refine finds_bind (finds_lower s element e w) (fun a => ?_) fun _ => List.prefix_rfl
  -- All reads are found once the body is lowered; how it is sent adds none.
  cases a with
  | res index => exact finds_pure _
  | const v => exact finds_throw _ fun _ => List.prefix_rfl
  | arg slot => exact finds_push _ _ _

end Expr

/-- An expression to be lowered at a width, as an operand or as the body of a
    function. -/
inductive LoweringTask where
  | operand (e : Expr) (width : Nat)
  | body (e : Expr) (width : Nat)
  deriving DecidableEq, Repr

namespace LoweringTask

open UnitBuilder

/-- The expression that is lowered. -/
def expr : LoweringTask → Expr
  | .operand e _ => e
  | .body e _ => e

/-- Lower the expression and forget what holds its value. -/
def run (s : Scope) (element : String) : LoweringTask → Step Unit
  | .operand e w => do
    let _ ← e.lower s element w
  | .body e w => do
    let _ ← e.lowerOutput s element w

/-- Lower one expression after another, up to the first error. -/
def runAll (s : Scope) (element : String) : List LoweringTask → Step Unit
  | [] => pure ()
  | t :: ts => do
    t.run s element
    runAll s element ts

/-- The channels that expressions read together, in order of first
    appearance. -/
def reads (refs : List ChannelId) (tasks : List LoweringTask) : List ChannelId :=
  tasks.foldl (fun refs t => t.expr.addReads refs) refs

/-- Tasks only append to the reads. -/
theorem reads_prefix (tasks : List LoweringTask) (refs : List ChannelId) :
    refs <+: reads refs tasks := by
  induction tasks generalizing refs with
  | nil => exact List.prefix_rfl
  | cons t ts ih => exact (t.expr.addReads_prefix refs).trans (ih _)

/-- Literals read nothing, so leaving them out changes no reads. -/
theorem reads_filter_literals (tasks : List LoweringTask) (refs : List ChannelId) :
    reads refs (tasks.filter fun t => t.expr.asConst?.isNone) = reads refs tasks := by
  induction tasks generalizing refs with
  | nil => rfl
  | cons t ts ih =>
      cases hconst : t.expr.asConst? with
      | none =>
          rw [List.filter_cons_of_pos (by rw [hconst]; rfl)]
          exact ih _
      | some v =>
          rw [List.filter_cons_of_neg (by rw [hconst]; exact Bool.false_ne_true), ih]
          unfold reads
          rw [List.foldl_cons, Expr.addReads_of_const t.expr v refs hconst]

variable (s : Scope) (element : String)

/-- A task finds the reads of its expression. -/
theorem finds_run (t : LoweringTask) :
    Finds (fun refs => t.expr.addReads refs) (t.run s element) := by
  cases t with
  | operand e w =>
      exact finds_bind (Expr.finds_lower s element e w) (fun _ => finds_pure _)
        fun _ => List.prefix_rfl
  | body e w =>
      exact finds_bind (Expr.finds_lowerOutput s element e w) (fun _ => finds_pure _)
        fun _ => List.prefix_rfl

/-- Tasks that run one after another find their reads together. -/
theorem finds_runAll (tasks : List LoweringTask) :
    Finds (fun refs => reads refs tasks) (runAll s element tasks) := by
  induction tasks with
  | nil => exact finds_pure _
  | cons t ts ih =>
      exact finds_bind (finds_run s element t) (fun _ => ih) fun refs => reads_prefix ts refs

/-- Lowering a literal changes nothing, whether it succeeds or stops. -/
theorem run_of_literal (t : LoweringTask) (b : UnitBuilder) (h : t.expr.asConst?.isSome) :
    t.run s element b = .ok () b ∨ ∃ e, t.run s element b = .error e b := by
  rcases Option.isSome_iff_exists.mp h with ⟨v, hv⟩
  cases t with
  | operand e w =>
      exact Or.inl (bind_of_ok (Expr.lower_of_const s element e v w b hv))
  | body e w =>
      refine Or.inr ⟨.malformedElement element .constantBody, ?_⟩
      refine bind_error_iff.mpr (Or.inl ?_)
      exact bind_of_ok (Expr.lower_of_const s element e v w b hv)

/-- Expressions that are lowered one after another into a new unit find their
    channels in the order in which they are counted. If lowering stops at one of
    them, the channels found are a beginning of those. Literals count for nothing
    and find nothing. -/
theorem runAll_reading_order (tasks : List LoweringTask) :
    (∀ b, runAll s element tasks .empty = .ok () b → b.args = reads [] tasks) ∧
    (∀ e b, runAll s element tasks .empty = .error e b → b.args <+: reads [] tasks) ∧
    reads [] (tasks.filter fun t => t.expr.asConst?.isNone) = reads [] tasks ∧
    ∀ t ∈ tasks, t.expr.asConst?.isSome → ∀ b,
      t.run s element b = .ok () b ∨ ∃ e, t.run s element b = .error e b := by
  -- Both outcomes are cases of the same statement about a run that starts without slots.
  have hfound := finds_runAll s element tasks .empty
  refine ⟨?_, ?_, reads_filter_literals tasks [], ?_⟩
  · intro b hrun
    rw [hrun] at hfound
    exact hfound
  · intro e b hrun
    rw [hrun] at hfound
    exact hfound
  · intro t _ hliteral b
    exact run_of_literal s element t b hliteral

/-- A conditional on the third channel, a literal under a cast and the second
    channel share a unit. If a channel of unknown width follows a sum, lowering
    stops with the reads of the sum. -/
theorem runAll_reading_order_shared :
    let s : Scope := ⟨[⟨"a", .int 8, .port .input, 0⟩, ⟨"b", .int 16, .port .input, 1⟩,
      ⟨"g", .bool, .port .input, 2⟩]⟩
    let shared : List LoweringTask :=
      [.body (.query (.var 2) (.binary .lt (.var 1) (.var 0)) (.var 0)) 8,
        .operand (.cast (.const 3) (some 4)) 8, .body (.var 1) 16]
    let stopped : List LoweringTask :=
      [.body (.binary .add (.var 1) (.cast (.var 0) none)) 8, .operand (.var 7) 8,
        .operand (.var 2) 1]
    (∃ b, runAll s "" shared .empty = .ok () b ∧ b.args = [2, 1, 0]) ∧
      ∃ e b, runAll s "" stopped .empty = .error e b ∧
        b.args <+: reads [] stopped ∧ b.args ≠ reads [] stopped := by
  intro s shared stopped
  rcases runAll_reading_order s "" shared with ⟨hdone, _⟩
  rcases runAll_reading_order s "" stopped with ⟨_, hstopped, _⟩
  exact ⟨⟨_, rfl, hdone _ rfl⟩, ⟨_, _, rfl, hstopped _ _ rfl, by decide⟩⟩

end LoweringTask

end DataflowCircuit
