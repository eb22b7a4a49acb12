import DataflowCircuit.Proofs.FunctionalUnit.Members

/-!
# Operands are Used Once

The statements of a unit form a program in single assignment, in which every
result is read once. This is not an invariant of the builder. Lowering an
expression hands back an operand that nobody has read yet, and while the other
operands of a statement, or the other members of a cluster, are lowered, several
of them wait.

`Balanced` counts the operands that wait along with those that were read. Then it
is kept by everything that a builder goes through: an argument or a constant joins
those that wait, and a statement takes its operands from among them and puts its
own result in their place. Nothing is left over in the end, because what still
waits when all members have been gathered are the results that the outputs send.

That a unit has an argument at all is due to the shapes that are rejected. A
statement of which every operand is constant is never pushed, so what it reads is
an argument or an earlier result, and the first statement has no earlier result to
read.

## Main definitions

* `Operation.operands`: What an operation reads.
* `Operand.Below`: An operand that refers to what is there.
* `UnitBuilder.Balanced`: Every result is read once or waits to be.
* `Members.sent`: The results that the outputs of members send.

## Theorems

* `balanced_wait`, `balanced_addArg`, `balanced_pushed`: The ways in which
  operands come to wait and are read.
* `lower_balanced`, `lowerOutput_balanced`: Lowering an expression adds one
  operand to those that wait.
* `gathered_balanced`: Members leave the results that they send.
-/

namespace DataflowCircuit

/-- The operands that an operation reads, from the left. -/
def Operation.operands : Operation → List Operand
  | .binary _ lhs rhs => [lhs, rhs]
  | .unary _ arg => [arg]
  | .select cond then_ else_ => [cond, then_, else_]
  | .forward arg => [arg]

/-- An operand that refers to one of the first `args` arguments or of the first
    `results` results, if it is not a constant. -/
def Operand.Below (args results : Nat) : Operand → Prop
  | .arg slot => slot < args
  | .res index => index < results
  | .const _ => True

/-- What refers to something still does when there is more. -/
theorem Operand.Below.mono {a : Operand} {args args' results results' : Nat}
    (h : a.Below args results) (hargs : args ≤ args') (hresults : results ≤ results') :
    a.Below args' results' := by
  cases a with
  | arg slot => exact Nat.lt_of_lt_of_le h hargs
  | res index => exact Nat.lt_of_lt_of_le h hresults
  | const value => trivial

namespace UnitBuilder

/-- The operands that the statements so far read. -/
def operands (b : UnitBuilder) : List Operand :=
  b.statements.flatMap fun st => st.op.operands

/-- A statement adds the operands that it reads. -/
theorem operands_pushed (b : UnitBuilder) (t : NameToken) (op : Operation) (w : Nat) :
    (b.pushed t op w).operands = b.operands ++ op.operands := by
  unfold operands
  rw [pushed_statements, List.flatMap_append, List.flatMap_singleton]

/-- Statements read what stands before them, every argument is read and every
    result is read once, where the operands `pending` have been handed out and wait
    to be read. -/
structure Balanced (b : UnitBuilder) (pending : List Operand) : Prop where
  stated : ∀ (i : Nat) (st : Statement), b.statements[i]? = some st →
    ∀ a ∈ st.op.operands, a.Below b.args.length i
  waiting : ∀ a ∈ pending, a.Below b.args.length b.statements.length
  read : ∀ slot < b.args.length, Operand.arg slot ∈ b.operands ++ pending
  once : ∀ i < b.statements.length, (b.operands ++ pending).count (.res i) = 1
  /-- Without an argument there is nothing to compute from. -/
  fed : b.statements ≠ [] → b.args ≠ []

/-- Nothing was computed and nothing waits. -/
theorem balanced_empty : empty.Balanced [] where
  stated := fun _ _ h => by cases h
  waiting := fun _ h => absurd h List.not_mem_nil
  read := fun _ h => absurd h (Nat.not_lt_zero _)
  once := fun _ h => absurd h (Nat.not_lt_zero _)
  fed := fun h => absurd rfl h

/-- The name of a unit does not matter. -/
theorem Balanced.rename {b : UnitBuilder} {pending : List Operand} (h : b.Balanced pending)
    (name : List NameToken) : ({ b with name } : UnitBuilder).Balanced pending :=
  ⟨h.stated, h.waiting, h.read, h.once, h.fed⟩

variable {b : UnitBuilder} {pending : List Operand}

/-- No operand refers to what is not there yet. -/
theorem Balanced.below (h : b.Balanced pending) :
    ∀ a ∈ b.operands ++ pending, a.Below b.args.length b.statements.length := by
  refine List.forall_mem_append.mpr ⟨fun a ha => ?_, h.waiting⟩
  rcases List.mem_flatMap.mp ha with ⟨st, hst, ha⟩
  rcases List.getElem?_of_mem hst with ⟨i, hi⟩
  have hlt := (List.getElem?_eq_some_iff.mp hi).1
  exact (h.stated i st hi a ha).mono (Nat.le_refl _) (Nat.le_of_lt hlt)

/-- A constant or an argument that is there already joins those that wait. -/
theorem balanced_wait (a : Operand) (hres : ∀ i, a ≠ .res i)
    (ha : a.Below b.args.length b.statements.length) (h : b.Balanced pending) :
    b.Balanced (pending ++ [a]) where
  stated := h.stated
  waiting := List.forall_mem_append.mpr ⟨h.waiting, List.forall_mem_singleton.mpr ha⟩
  read := by
    intro slot hslot
    rw [← List.append_assoc]
    exact List.mem_append_left _ (h.read slot hslot)
  once := by
    intro i hi
    -- What waits now is no result, so no result is counted anew.
    have hnone : [a].count (.res i) = 0 :=
      List.count_eq_zero_of_not_mem fun hmem => hres i (List.mem_singleton.mp hmem).symm
    rw [← List.append_assoc, List.count_append, h.once i hi, hnone]
  fed := h.fed

/-- A new argument waits to be read. -/
theorem balanced_addArg (id : ChannelId) (w : Nat) (h : b.Balanced pending) :
    (b.addArg id w).Balanced (pending ++ [.arg b.args.length]) := by
  have hlength : (b.addArg id w).args.length = b.args.length + 1 := List.length_append
  refine ⟨?_, ?_, ?_, ?_, ?_⟩
  · intro i st hst a ha
    exact (h.stated i st hst a ha).mono (by omega) (Nat.le_refl _)
  · refine List.forall_mem_append.mpr ⟨fun a ha => ?_, List.forall_mem_singleton.mpr ?_⟩
    · exact (h.waiting a ha).mono (by omega) (Nat.le_refl _)
    · change b.args.length < (b.addArg id w).args.length
      omega
  · intro slot hslot
    rw [← List.append_assoc, List.mem_append]
    rcases Nat.lt_or_ge slot b.args.length with hlt | hge
    · exact Or.inl (h.read slot hlt)
    · have hnew : slot = b.args.length := by omega
      exact Or.inr (by rw [hnew]; exact List.mem_singleton_self _)
  · intro i hi
    -- The same holds of a new argument.
    have hnone : [Operand.arg b.args.length].count (.res i) = 0 :=
      List.count_eq_zero_of_not_mem fun hmem => nomatch List.mem_singleton.mp hmem
    rw [← List.append_assoc, List.count_append, hnone]
    exact h.once i hi
  · exact fun _ => List.append_ne_nil_of_right_ne_nil _ (List.cons_ne_nil id [])

/-- A statement reads operands that wait, of which one is not constant, and leaves
    its result in their place. -/
theorem balanced_pushed (t : NameToken) (op : Operation) (w : Nat)
    (hop : ∃ a ∈ op.operands, a.isConst = false) (h : b.Balanced (pending ++ op.operands)) :
    (b.pushed t op w).Balanced (pending ++ [.res b.statements.length]) := by
  have hlength : (b.pushed t op w).statements.length = b.statements.length + 1 := by
    rw [pushed_statements, List.length_append, List.length_singleton]
  refine ⟨?_, ?_, ?_, ?_, ?_⟩
  · intro i st hst a ha
    rcases getElem?_pushed b t op w i st hst with hold | ⟨rfl, rfl⟩
    · exact h.stated i st hold a ha
    · exact h.waiting a (List.mem_append_right _ ha)
  · refine List.forall_mem_append.mpr ⟨fun a ha => ?_, List.forall_mem_singleton.mpr ?_⟩
    · exact (h.waiting a (List.mem_append_left _ ha)).mono (Nat.le_refl _) (by omega)
    · change b.statements.length < (b.pushed t op w).statements.length
      omega
  · intro slot hslot
    have hold := h.read slot hslot
    rw [operands_pushed]
    rcases List.mem_append.mp hold with hread | hwaiting
    · exact List.mem_append_left _ (List.mem_append_left _ hread)
    · rcases List.mem_append.mp hwaiting with hlater | hnow
      · exact List.mem_append_right _ (List.mem_append_left _ hlater)
      · exact List.mem_append_left _ (List.mem_append_right _ hnow)
  · intro i hi
    -- The operands of the statement only change sides.
    have hcount :
        ((b.pushed t op w).operands ++ (pending ++ [Operand.res b.statements.length])).count
          (Operand.res i)
        = (b.operands ++ (pending ++ op.operands)).count (Operand.res i)
          + [Operand.res b.statements.length].count (Operand.res i) := by
      rw [operands_pushed]
      simp only [List.count_append]
      omega
    rw [hcount]
    rcases Nat.lt_or_ge i b.statements.length with hlt | hge
    · have hother : [Operand.res b.statements.length].count (.res i) = 0 := by
        refine List.count_eq_zero_of_not_mem fun hmem => ?_
        cases List.mem_singleton.mp hmem
        omega
      rw [h.once i hlt, hother]
    · have hi : i = b.statements.length := by omega
      -- The new result has not been read, since nobody could refer to it before.
      have hunread : (b.operands ++ (pending ++ op.operands)).count (.res i) = 0 := by
        refine List.count_eq_zero_of_not_mem fun hmem => ?_
        have hbelow : i < b.statements.length := h.below _ hmem
        omega
      rw [hunread, hi, List.count_singleton_self]
  · intro _
    rcases hop with ⟨a, ha, hconst⟩
    have hbelow := h.waiting a (List.mem_append_right _ ha)
    cases a with
    | arg slot => exact List.ne_nil_of_length_pos (Nat.zero_lt_of_lt hbelow)
    | res index => exact h.fed (List.ne_nil_of_length_pos (Nat.zero_lt_of_lt hbelow))
    | const value => cases hconst

end UnitBuilder

namespace Expr

open UnitBuilder

variable (s : Scope) (element : String)

/-- Lowering an expression adds its operand to those that wait. -/
theorem lower_balanced (e : Expr) (w : Nat) (a : Operand) (b b' : UnitBuilder)
    (pending : List Operand) (h : e.lower s element w b = .ok a b') (hb : b.Balanced pending) :
    b'.Balanced (pending ++ [a]) := by
  induction e generalizing w a b b' pending with
  | const v =>
      rcases lower_const_ok s element v w a b b' h with ⟨rfl, rfl⟩
      exact balanced_wait _ (fun _ h => nomatch h) trivial hb
  | var id =>
      rcases arg_ok s id a b b' h with ⟨slot, hslot, rfl, rfl⟩ | ⟨_, v, _, rfl, rfl⟩
      · exact balanced_wait _ (fun _ h => nomatch h) (List.idxOf?_eq_some_iff.mp hslot).1 hb
      · exact balanced_addArg id v hb
  | cast arg v ih => exact ih (v.getD w) a b b' pending h hb
  | unary op arg ih =>
      rcases lower_unary_ok s element op arg w a b b' h with ⟨x, b₁, hx, hconst, rfl, rfl⟩
      exact balanced_pushed _ (.unary op x) w ⟨x, List.mem_singleton_self x, hconst⟩
        (ih w x b b₁ pending hx hb)
  | binary op lhs rhs ihl ihr =>
      rcases lower_binary_ok s element op lhs rhs w a b b' h with
        ⟨ow, x, b₁, y, b₂, _, hx, hy, hconst, rfl, rfl⟩
      -- The left operand waits while the right side is lowered.
      have hboth := ihr ow y b₁ b₂ _ hy (ihl ow x b b₁ pending hx hb)
      rw [List.append_assoc] at hboth
      refine balanced_pushed _ (.binary op x y) _ ?_ hboth
      -- The check against constant operands is what feeds a statement.
      rcases Bool.and_eq_false_iff.mp hconst with hx | hy
      · exact ⟨x, by simp [Operation.operands], hx⟩
      · exact ⟨y, by simp [Operation.operands], hy⟩
  | query c t e ihc iht ihe =>
      rcases lower_query_ok s element c t e w a b b' h with
        ⟨x, b₁, y, b₂, z, b₃, hx, hy, hz, _, hconst, rfl, rfl⟩
      have hall := ihe w z b₂ b₃ _ hz (iht w y b₁ b₂ _ hy (ihc 1 x b b₁ pending hx hb))
      rw [List.append_assoc, List.append_assoc] at hall
      refine balanced_pushed _ (.select x y z) w ?_ hall
      simp only [Bool.and_eq_false_iff] at hconst
      rcases hconst with (hx | hy) | hz
      · exact ⟨x, by simp [Operation.operands], hx⟩
      · exact ⟨y, by simp [Operation.operands], hy⟩
      · exact ⟨z, by simp [Operation.operands], hz⟩

/-- Lowering a function body leaves the result that its output sends. -/
theorem lowerOutput_balanced (e : Expr) (w i : Nat) (b b' : UnitBuilder)
    (pending : List Operand) (h : e.lowerOutput s element w b = .ok i b')
    (hb : b.Balanced pending) : b'.Balanced (pending ++ [.res i]) := by
  rcases lowerOutput_ok s element e w i b b' h with hres | ⟨slot, b₁, harg, rfl, rfl⟩
  · exact lower_balanced s element e w _ b b' pending hres hb
  · exact balanced_pushed .port (.forward (.arg slot)) w ⟨_, List.mem_singleton_self _, rfl⟩
      (lower_balanced s element e w _ b b₁ pending harg hb)

end Expr

namespace Lowering

/-- The results that the outputs of members send. -/
def Members.sent (ms : Members) : List Operand :=
  ms.outputs.map fun o => .res o.result

/-- When members are gathered, the results that their outputs send are what has
    not been read. -/
theorem gathered_balanced {s : Scope} {element : String} {clustered : Bool} {position : Nat}
    {fs : List (Func ChannelId Expr)} {ms ms' : Members} {τ : Trace}
    (h : Gathered s element clustered position fs ms ms' τ)
    (hms : ms.builder.Balanced ms.sent) : ms'.builder.Balanced ms'.sent := by
  induction h with
  | done position ms => exact hms
  | step position f fs ms ms₁ ms' τ τ' hadd hrest ih =>
      refine ih ?_
      cases hadd with
      | source value out hconst hout => exact hms
      | member out width result builder channel τ hconst hout hwidth hlower =>
          have hgrown := Expr.lowerOutput_balanced s element f.expr width result _ _ _ hlower hms
          -- The result of the body goes straight to its output.
          have hsent : (ms.grow clustered position f (s.nameOf out) width result builder
              channel).sent = ms.sent ++ [.res result] := List.map_append
          rw [hsent]
          exact hgrown.rename _

end Lowering

end DataflowCircuit
