/-!
# Successful Steps

A step of a unit builder, of a session or of lowering is a computation that
threads a state and may stop. Every statement about lowering starts from a
run that succeeded, and has to say what the parts of that run did.

The lemmas here take such a run apart. A sequence succeeded exactly if its
first part did and the rest succeeded from the state it left, so a long run is
peeled by naming its intermediate states one after another, and no proof has
to unfold a monad. The same is said for results without a state.

## Theorems

* `bind_apply`, `bind_of_ok`, `exists_bind_ok`, `get_bind_apply`,
  `set_bind_apply`: What a sequence does.
* `bind_ok_iff`: A sequence succeeds exactly if both of its parts do.
* `bind_error_iff`: A sequence stops exactly if one of its parts does.
* `pure_ok_iff`, `throw_ok_iff`, `get_ok_iff`, `set_ok_iff`, `modify_ok_iff`:
  The steps that only touch the state.
* `run'_eq_some_iff`, `toOption_eq_some_iff`: Success without the state or the
  error.
* `except_bind_ok_iff`, `except_pure_ok_iff`: The same without a state.
* `guard_ok_iff`: A check that throws succeeds exactly if it does not fire.
-/

namespace DataflowCircuit

section State

variable {ε σ α β : Type} {m : EStateM ε σ α} {k : α → EStateM ε σ β} {s s' s'' : σ} {a : α}
  {b : β}

/-- How a sequence ends is decided by its first part, unless that succeeds. -/
theorem bind_apply (m : EStateM ε σ α) (k : α → EStateM ε σ β) (s : σ) :
    (m >>= k) s = match m s with
      | .ok a s' => k a s'
      | .error e s' => .error e s' :=
  rfl

/-- The rest of a sequence goes on from the state that its first part left. -/
theorem bind_of_ok (h : m s = .ok a s') : (m >>= k) s = k a s' := by
  rw [bind_apply, h]

/-- A sequence succeeds if the rest does from the state that its first part left. -/
theorem exists_bind_ok (h : m s = .ok a s') (hk : ∃ s'', k a s' = .ok b s'') :
    ∃ s'', (m >>= k) s = .ok b s'' := by
  rw [bind_of_ok h]
  exact hk

/-- What asks for the state goes on with the state. -/
theorem get_bind_apply (k : σ → EStateM ε σ α) (s : σ) : (get >>= k) s = k s s :=
  rfl

/-- What sets the state goes on from that state. -/
theorem set_bind_apply (t : σ) (k : PUnit → EStateM ε σ α) (s : σ) :
    (set t >>= k) s = k PUnit.unit t :=
  rfl

/-- A sequence succeeds exactly if its first part succeeds and the rest
    succeeds from the state that part left. -/
@[simp] theorem bind_ok_iff :
    (m >>= k) s = .ok b s'' ↔ ∃ a s', m s = .ok a s' ∧ k a s' = .ok b s'' := by
  rw [bind_apply]
  cases hm : m s with
  | ok a s' =>
      constructor
      · intro h
        exact ⟨a, s', rfl, h⟩
      · rintro ⟨a', t, heq, h⟩
        cases heq
        exact h
  | error e s' =>
      constructor
      · intro h
        cases h
      · rintro ⟨a', t, heq, _⟩
        cases heq

/-- A sequence stops exactly if its first part does, or the rest does from the
    state that part left. -/
@[simp] theorem bind_error_iff {e : ε} :
    (m >>= k) s = .error e s'' ↔
      m s = .error e s'' ∨ ∃ a s', m s = .ok a s' ∧ k a s' = .error e s'' := by
  rw [bind_apply]
  cases hm : m s with
  | ok a s' =>
      constructor
      · intro h
        exact Or.inr ⟨a, s', rfl, h⟩
      -- The first part succeeded, so only the second case is left.
      · rintro (heq | ⟨a', t, heq, h⟩)
        · cases heq
        · cases heq
          exact h
  | error e' s' =>
      constructor
      · intro h
        cases h
        exact Or.inl rfl
      · rintro (heq | ⟨a', t, heq, _⟩)
        · cases heq
          rfl
        · cases heq

/-- A result that was there already leaves the state alone. -/
@[simp] theorem pure_ok_iff {c : α} :
    (pure a : EStateM ε σ α) s = .ok c s' ↔ a = c ∧ s = s' := by
  change EStateM.Result.ok a s = .ok c s' ↔ _
  rw [EStateM.Result.ok.injEq]

/-- Running a step for its result gives one exactly if the step succeeds. -/
theorem run'_eq_some_iff : m.run' s = some a ↔ ∃ s', m s = .ok a s' := by
  change (match m s with
    | .ok v _ => some v
    | .error _ _ => none) = some a ↔ _
  cases m s <;> simp

/-- A failure never succeeds. -/
@[simp] theorem throw_ok_iff {e : ε} :
    (throw e : EStateM ε σ α) s = .ok a s' ↔ False := by
  change EStateM.Result.error e s = .ok a s' ↔ _
  simp only [reduceCtorEq]

/-- Asking for the state returns it. -/
@[simp] theorem get_ok_iff {t : σ} :
    (get : EStateM ε σ σ) s = .ok t s' ↔ s = t ∧ s = s' := by
  change EStateM.Result.ok s s = .ok t s' ↔ _
  rw [EStateM.Result.ok.injEq]

/-- Setting the state forgets the old one. -/
@[simp] theorem set_ok_iff {t : σ} {u : PUnit} :
    (set t : EStateM ε σ PUnit) s = .ok u s' ↔ t = s' := by
  change EStateM.Result.ok PUnit.unit t = .ok u s' ↔ _
  simp only [EStateM.Result.ok.injEq, true_and]

/-- Changing the state applies the change. -/
@[simp] theorem modify_ok_iff {f : σ → σ} {u : PUnit} :
    (modify f : EStateM ε σ PUnit) s = .ok u s' ↔ f s = s' := by
  change EStateM.Result.ok PUnit.unit (f s) = .ok u s' ↔ _
  simp only [EStateM.Result.ok.injEq, true_and]

/-- A check that throws if `c` holds lets a run pass exactly if `c` does not
    hold. -/
theorem guard_ok_iff {c : Prop} [Decidable c] {e : ε} {k : PUnit → EStateM ε σ β} :
    (if c then throw e >>= k else k PUnit.unit) s = .ok b s' ↔
      ¬ c ∧ k PUnit.unit s = .ok b s' := by
  by_cases hc : c
  · rw [if_pos hc, bind_ok_iff]
    constructor
    -- A check that fired has no state to go on from.
    · rintro ⟨a, t, hthrow, _⟩
      exact (throw_ok_iff.mp hthrow).elim
    · intro h
      exact absurd hc h.1
  · rw [if_neg hc]
    constructor
    · intro h
      exact ⟨hc, h⟩
    · intro h
      exact h.2

end State

section Result

variable {ε α β : Type} {x : Except ε α} {k : α → Except ε β} {a c : α} {b : β}

/-- A sequence of results succeeds exactly if both parts do. -/
@[simp] theorem except_bind_ok_iff :
    (x >>= k) = .ok b ↔ ∃ a, x = .ok a ∧ k a = .ok b := by
  cases x with
  | ok a =>
      constructor
      · intro h
        exact ⟨a, rfl, h⟩
      · rintro ⟨a', heq, h⟩
        cases heq
        exact h
  | error e =>
      constructor
      · intro h
        cases h
      · rintro ⟨a', heq, _⟩
        cases heq

/-- What is kept of a result without its error is there exactly if there was no
    error. -/
theorem toOption_eq_some_iff : x.toOption = some a ↔ x = .ok a := by
  cases x <;> simp [Except.toOption]

/-- A result that was there already is that result. -/
@[simp] theorem except_pure_ok_iff : (pure a : Except ε α) = .ok c ↔ a = c := by
  change Except.ok a = .ok c ↔ _
  rw [Except.ok.injEq]

end Result

end DataflowCircuit
