import DataflowCircuit.Proofs.Naming.FreshNames
import Mathlib.Data.List.Nodup
import Mathlib.Data.List.Perm.Subperm

/-!
# Searches for Fresh Names End

A name supply is asked for numbered and for plain names in any order, and both
kinds of search draw on the same counters. This file describes a search round by
round, without a bound: a round advances the counter of the stem, makes a name
of the number and the stem, and either takes it or goes on. A numbered search
goes on with the same stem, a plain one with the name that was refused.

That the rounds come to an end is the point of `Finds`, which holds of a finite
number of rounds only. Neither the counter nor the length of the stem is a
measure for it. A plain search tries a new stem bare, so the name that was just
refused is refused once more, and only then does the stem grow. What bounds the
rounds are the taken names, and a search that used up as many rounds as they
allow would have taken no name.

No counter can run away either. The numbers that a counter has passed belong to
taken names, whether they were refused or given out, so there are always more
taken names than a counter says.

## Main definitions

* `NameSupply.Finds`: A search of some rounds finds a name.
* `NameSupply.Granted`: What the answer to a request is like.
* `NameSupply.answerAll`: Requests answered one after another.
* `NameSupply.Spent`: A supply whose counters passed taken names only.

## Theorems

* `NameSupply.finds_loop`: A search that takes a name has ended by itself.
* `NameSupply.Finds.spent`: Searches keep counters behind taken names.
* `NameSupply.granted_answer`: Every request is granted.
* `NameSupply.supplied_answerAll`: What a run of requests leaves.
* `NameSupply.searches_end_with_fresh_names`: Every search of every run ends
  with a fresh name.
-/

namespace DataflowCircuit

namespace NameSupply

namespace Request

/-- The stem that is asked for. -/
def stem : Request → String
  | numbered stem => stem
  | plain stem => stem

/-- The number that a new stem gets. -/
def first : Request → Int
  | numbered _ => 0
  | plain _ => -1

/-- The name that is made of a number. -/
def candidate : Request → Int → String
  | numbered stem, n => stem ++ toString n
  | plain stem, n => if n = -1 then stem else stem ++ toString n

/-- What is searched for after a name was refused. -/
def after : Request → String → Request
  | numbered stem, _ => numbered stem
  | plain _, refused => plain refused

/-- The search for a name with a bound on its rounds. -/
def loop : Request → Nat → NameSupply → String × NameSupply
  | numbered stem, fuel, ns => numberedLoop stem fuel ns
  | plain stem, fuel, ns => plainLoop fuel stem ns

end Request

/-- Requests answered one after another. -/
def answerAll : NameSupply → List Request → List String × NameSupply
  | ns, [] => ([], ns)
  | ns, r :: rs =>
    let out := ns.answer r
    let rest := out.2.answerAll rs
    (out.1 :: rest.1, rest.2)

/-- The name that the next round tries. -/
def attempt (ns : NameSupply) (r : Request) : String :=
  r.candidate (ns.advance r.stem r.first).1

/-- The supply after the next round advanced a counter. -/
def advanced (ns : NameSupply) (r : Request) : NameSupply :=
  (ns.advance r.stem r.first).2

/-- A search that finds a name after so many rounds. -/
inductive Finds : NameSupply → Request → Nat → String × NameSupply → Prop where
  | free (ns : NameSupply) (r : Request) (hfree : ns.attempt r ∉ ns.taken) :
      Finds ns r 1 (ns.attempt r, (ns.advanced r).take (ns.attempt r))
  | refused (ns : NameSupply) (r : Request) (rounds : Nat) (out : String × NameSupply)
      (htaken : ns.attempt r ∈ ns.taken)
      (hrest : Finds (ns.advanced r) (r.after (ns.attempt r)) rounds out) :
      Finds ns r (rounds + 1) out

/-- The answer to a request: a search without a bound ends with it, the name is
    the stem with digits behind it and was not taken, and it is the only name
    that is taken in addition. -/
structure Granted (ns : NameSupply) (r : Request) (out : String × NameSupply) : Prop where
  ends : ∃ rounds, rounds ≤ 2 * ns.taken.length + 2 ∧ Finds ns r rounds out
  spelled : ∃ ds : List Char, (∀ c ∈ ds, c.isDigit = true) ∧
    out.1.toList = r.stem.toList ++ ds
  fresh : out.1 ∉ ns.taken
  taken : ∀ name, name ∈ out.2.taken ↔ name = out.1 ∨ name ∈ ns.taken

section Rounds

/-- A round sets the counter of its stem to the number it uses. -/
theorem advanced_eq (ns : NameSupply) (r : Request) : ns.advanced r
    = { ns with counters := setCounter r.stem (ns.next r.stem r.first) ns.counters } := by
  rw [advanced, advance_eq]

/-- And it tries the name that this number makes. -/
theorem attempt_eq (ns : NameSupply) (r : Request) :
    ns.attempt r = r.candidate (ns.next r.stem r.first) := by
  rw [attempt, advance_eq]

/-- Out of rounds, a search answers the stem and takes nothing. -/
theorem Request.loop_zero (r : Request) (ns : NameSupply) : r.loop 0 ns = (r.stem, ns) := by
  cases r <;> rfl

/-- A bounded search goes round by round. -/
theorem Request.loop_succ (r : Request) (fuel : Nat) (ns : NameSupply) :
    r.loop (fuel + 1) ns = if ns.attempt r ∈ ns.taken
      then (r.after (ns.attempt r)).loop fuel (ns.advanced r)
      else (ns.attempt r, (ns.advanced r).take (ns.attempt r)) := by
  cases r <;> rfl

/-- A bounded search that takes a name did not end by its bound. -/
theorem finds_loop (fuel : Nat) (ns : NameSupply) (r : Request)
    (h : (r.loop fuel ns).2.taken ≠ ns.taken) :
    ∃ rounds, rounds ≤ fuel ∧ Finds ns r rounds (r.loop fuel ns) := by
  -- The request changes from round to round as well as the supply, so both are general.
  induction fuel generalizing ns r with
  | zero =>
      rw [r.loop_zero] at h
      -- The bound was reached without a name, which the hypothesis excludes.
      exact absurd rfl h
  | succ fuel ih =>
      rw [r.loop_succ] at h ⊢
      by_cases htaken : ns.attempt r ∈ ns.taken
      · rw [if_pos htaken] at h ⊢
        rcases ih (ns.advanced r) (r.after (ns.attempt r)) h with ⟨rounds, hle, hfinds⟩
        exact ⟨rounds + 1, by omega, Finds.refused ns r rounds _ htaken hfinds⟩
      · rw [if_neg htaken]
        exact ⟨1, by omega, Finds.free ns r htaken⟩

/-- Both kinds of requests draw a name from the supply. -/
theorem drawn_answer (ns : NameSupply) (r : Request) (h : ns.Steady) :
    Drawn ns r.stem (ns.answer r) := by
  cases r with
  | numbered stem => exact (drawn_numbered ns stem h).1
  | plain stem => exact drawn_plain ns stem h

/-- The answer to a request is what a search without a bound finds. -/
theorem finds_answer (ns : NameSupply) (r : Request) (h : ns.Steady) :
    ∃ rounds, rounds ≤ 2 * ns.taken.length + 2 ∧ Finds ns r rounds (ns.answer r) := by
  -- The answer is taken, so the loop has not come to its bound.
  have hgrows : (ns.answer r).2.taken ≠ ns.taken := by
    rw [(drawn_answer ns r h).taken]
    exact List.cons_ne_self _ _
  cases r with
  | numbered stem =>
      rcases finds_loop (ns.taken.length + 1) ns (.numbered stem) hgrows with ⟨rounds, hle, hfinds⟩
      exact ⟨rounds, by omega, hfinds⟩
  | plain stem => exact finds_loop (2 * ns.taken.length + 2) ns (.plain stem) hgrows

/-- Every request is granted. -/
theorem granted_answer (ns : NameSupply) (r : Request) (h : ns.Steady) :
    Granted ns r (ns.answer r) where
  ends := finds_answer ns r h
  spelled := (drawn_answer ns r h).spelled
  fresh := (drawn_answer ns r h).fresh
  taken := fun name => by rw [(drawn_answer ns r h).taken, List.mem_cons]

end Rounds

section Counters

/-- A supply in which every number that a counter has passed belongs to a taken
    name. -/
def Spent (ns : NameSupply) : Prop :=
  ∀ stem n, ns.counters.lookup stem = some n →
    ∀ i : Int, 0 ≤ i → i ≤ n → stem ++ toString i ∈ ns.taken

/-- A number that is not negative is written behind the stem, whatever was asked
    for. -/
theorem Request.candidate_of_nonneg (r : Request) (i : Int) (hi : 0 ≤ i) :
    r.candidate i = r.stem ++ toString i := by
  cases r with
  | numbered stem => rfl
  | plain stem =>
      have hne : i ≠ -1 := by omega
      exact if_neg hne

/-- A number below the next one of a stem was passed by its counter. -/
theorem lt_next (ns : NameSupply) (r : Request) (i : Int) (hi : 0 ≤ i)
    (hlt : i < ns.next r.stem r.first) : ∃ n, ns.counters.lookup r.stem = some n ∧ i ≤ n := by
  unfold next at hlt
  cases hlook : ns.counters.lookup r.stem with
  | none =>
      rw [hlook, Option.map_none, Option.getD_none] at hlt
      cases r <;> simp only [Request.first] at hlt <;> omega
  | some n =>
      rw [hlook, Option.map_some, Option.getD_some] at hlt
      exact ⟨n, rfl, by omega⟩

/-- One round keeps the counters behind taken names if the name it tried is taken
    afterwards. -/
theorem Spent.round {ns : NameSupply} (h : ns.Spent) (r : Request) (taken : List String)
    (hold : ∀ name ∈ ns.taken, name ∈ taken) (hnew : ns.attempt r ∈ taken) :
    Spent { ns.advanced r with taken } := by
  rw [advanced_eq]
  intro stem n hlook i hi hle
  change (setCounter r.stem (ns.next r.stem r.first) ns.counters).lookup stem = some n at hlook
  rw [lookup_setCounter] at hlook
  -- Only the counter of the stem that was searched has moved.
  by_cases hstem : stem = r.stem
  · rw [if_pos hstem, Option.some.injEq] at hlook
    rw [hstem]
    by_cases hlast : i = n
    · -- The last number is that of the name that was tried.
      rw [← r.candidate_of_nonneg i hi, hlast, ← hlook, ← attempt_eq]
      exact hnew
    -- A smaller number was passed before.
    · rcases lt_next ns r i hi (by omega) with ⟨m, hm, him⟩
      exact hold _ (h r.stem m hm i hi him)
  · rw [if_neg hstem] at hlook
    exact hold _ (h stem n hlook i hi hle)

/-- A search keeps the counters behind taken names. -/
theorem Finds.spent {ns : NameSupply} {r : Request} {rounds : Nat} {out : String × NameSupply}
    (h : Finds ns r rounds out) (hspent : ns.Spent) : out.2.Spent := by
  induction h with
  | free ns r hfree =>
      exact hspent.round r (ns.attempt r :: ns.taken)
        (fun _ hname => List.mem_cons_of_mem _ hname) List.mem_cons_self
  | refused ns r rounds out htaken hrest ih =>
      -- A refused name was taken already, and so the counter may pass it.
      exact ih (hspent.round r ns.taken (fun _ hname => hname) htaken)

/-- The first names that numbers make of a stem. -/
def numberedNames (stem : String) (count : Nat) : List String :=
  (List.range count).map fun i : Nat => stem ++ toString (i : Int)

/-- Different numbers make different names. -/
theorem nodup_numberedNames (stem : String) (count : Nat) : (numberedNames stem count).Nodup :=
  List.nodup_range.map fun i j hij => by
    have hsame := numbered_inj stem i j (by omega) (by omega) hij
    omega

/-- There are more taken names than a counter says. -/
theorem Spent.lt_length {ns : NameSupply} (h : ns.Spent) (stem : String) (n : Int)
    (hlook : ns.counters.lookup stem = some n) : n < ns.taken.length := by
  by_cases hneg : n < 0
  · omega
  · have hsub : numberedNames stem (n.toNat + 1) ⊆ ns.taken := by
      intro name hname
      rcases List.mem_map.mp hname with ⟨i, hi, rfl⟩
      have hlt := List.mem_range.mp hi
      exact h stem n hlook i (by omega) (by omega)
    -- The numbers up to `n` make different names, so there are `n + 1` of them.
    have hle := ((nodup_numberedNames stem (n.toNat + 1)).subperm hsub).length_le
    rw [numberedNames, List.length_map, List.length_range] at hle
    omega

/-- At the start no counter has passed anything. -/
theorem spent_ofNames (names : List String) : (ofNames names).Spent := by
  intro stem n hlook
  cases hlook

end Counters

section Runs

/-- What a run of requests leaves: the names it gave out are taken on top of
    those that were, are all different and new, and start with what was asked
    for. -/
structure Supplied (ns : NameSupply) (requests : List Request)
    (out : List String × NameSupply) : Prop where
  taken : out.2.taken = out.1.reverse ++ ns.taken
  nodup : out.1.Nodup
  fresh : ∀ name ∈ out.1, name ∉ ns.taken
  starts : List.Forall₂ (fun r name => r.stem.toList <+: name.toList) requests out.1
  steady : out.2.Steady
  spent : out.2.Spent

/-- A run of requests is supplied, whatever it asks for. -/
theorem supplied_answerAll (ns : NameSupply) (requests : List Request) (hsteady : ns.Steady)
    (hspent : ns.Spent) : Supplied ns requests (ns.answerAll requests) := by
  induction requests generalizing ns with
  | nil =>
      exact ⟨rfl, List.nodup_nil, fun _ h => absurd h List.not_mem_nil, List.Forall₂.nil,
        hsteady, hspent⟩
  | cons r requests ih =>
      have hdrawn := drawn_answer ns r hsteady
      rcases finds_answer ns r hsteady with ⟨rounds, _, hfinds⟩
      have hrest := ih (ns.answer r).2 hdrawn.steady (hfinds.spent hspent)
      -- What comes later is new to a supply that has the first name.
      have hlater : ∀ name ∈ ((ns.answer r).2.answerAll requests).1,
          name ≠ (ns.answer r).1 ∧ name ∉ ns.taken := by
        intro name hname
        have hnew := hrest.fresh name hname
        rw [hdrawn.taken, List.mem_cons, not_or] at hnew
        exact hnew
      -- What is steady and spent in the end is said by the rest of the run.
      refine ⟨?_, ?_, ?_, List.Forall₂.cons ?_ hrest.starts, hrest.steady, hrest.spent⟩
      · change ((ns.answer r).2.answerAll requests).2.taken = _
        rw [hrest.taken, hdrawn.taken, answerAll, List.reverse_cons, List.append_assoc,
          List.singleton_append]
      · exact List.nodup_cons.mpr ⟨fun hmem => (hlater _ hmem).1 rfl, hrest.nodup⟩
      · intro name hname
        rcases List.mem_cons.mp hname with rfl | hname
        · exact hdrawn.fresh
        · exact (hlater name hname).2
      · rcases hdrawn.spelled with ⟨ds, _, hspelled⟩
        exact ⟨ds, hspelled.symm⟩

end Runs

/-- Searches end with fresh names. Let some names be taken from the start, and
    let requests for numbered and for plain names be answered in any order. Then
    every further request is granted: its search ends, after at most two rounds
    for each taken name and two more, with a name that starts with the stem and
    is not taken, and that name alone is taken in addition. Taken are the names
    from the start and those given out, and the names given out are all
    different, none was there from the start, and each starts with the stem that
    was asked for. No counter reaches the number of names from the start and
    requests together. -/
theorem searches_end_with_fresh_names (names : List String) (requests : List Request) :
    let given := ((ofNames names).answerAll requests).1
    let ns := ((ofNames names).answerAll requests).2
    (∀ r, Granted ns r (ns.answer r)) ∧
      (∀ name, name ∈ ns.taken ↔ name ∈ given ∨ name ∈ names) ∧
      given.Nodup ∧ (∀ name ∈ given, name ∉ names) ∧
      List.Forall₂ (fun r name => r.stem.toList <+: name.toList) requests given ∧
      ∀ stem n, ns.counters.lookup stem = some n → n < names.length + requests.length := by
  intro given ns
  have hrun := supplied_answerAll (ofNames names) requests (steady_ofNames names)
    (spent_ofNames names)
  refine ⟨fun r => granted_answer ns r hrun.steady, fun name => ?_, hrun.nodup, hrun.fresh,
    hrun.starts, fun stem n hlook => ?_⟩
  · rw [hrun.taken, List.mem_append, List.mem_reverse]
    rfl
  -- The taken names are counted: those from the start and one for each request.
  · have hlt := hrun.spent.lt_length stem n hlook
    rw [hrun.taken, List.length_append, List.length_reverse, ← hrun.starts.length_eq] at hlt
    have hnames : (ofNames names).taken.length = names.length := rfl
    omega

/-- A name that is refused is tried once more as a stem, and then gets a number. -/
example : ((ofNames ["t1"]).answerAll [.plain "t", .numbered "t", .plain "t", .plain "t"]).1
    = ["t", "t0", "t10", "t2"] := by decide +kernel

end NameSupply

end DataflowCircuit
