import DataflowCircuit.Proofs.Basic.Traversal
import DataflowCircuit.Source.Grammar

/-!
# Reading Texts

What a parser reads from a text that is known. The statements here go from a
text to a value, and are the half of a round trip that starts from the
printer.

Rules skip blanks between their parts and nowhere else, and a part may or may
not have skipped what follows it when the next part begins. `Reads` hides the
difference: it says that a parser reads a value from a text and leaves another
text, where blanks in front of either text do not count. Sequences with a gap
between their parts then compose by `reads_seq`, and no proof has to say who
skipped what. `Fails` is the same for refusals, and a repetition reads as long
as its rounds succeed and stops where one fails.

## Main definitions

* `Reads`, `Fails`: A parser reads a value from a text, or refuses it.
* `Rounds`: The rounds of a repetition.

## Theorems

* `skip_skip`: Skipping twice is skipping once.
* `reads_seq`, `reads_map`, `reads_orElse_left`, `reads_optional`,
  `reads_repeated`: How parsers are put together.
* `rounds_flatMap`, `reads_list`: Items that are written one after the other,
  or with separators between them, are read back.
-/

namespace DataflowCircuit

namespace Source

open DataflowCircuit.Source.Parser

section Skipping

/-- A blank is skipped. -/
theorem skip_space (c : Char) (cs : List Char) (h : isSpace c = true) :
    skip (c :: cs) = skip cs := by
  rw [skip, if_pos h]

/-- Text that starts neither with a blank nor with a comment stays. -/
theorem skip_solid (c : Char) (cs : List Char) (hspace : isSpace c = false)
    (hcomment : comment? (c :: cs) = none) : skip (c :: cs) = c :: cs := by
  rw [skip, if_neg (by rw [hspace]; exact Bool.false_ne_true)]
  split
  · rename_i rest heq
    rw [hcomment] at heq
    cases heq
  · rfl

/-- Is `c` neither a blank nor the start of a comment? -/
def isSolid (c : Char) : Bool :=
  !isSpace c && c ≠ '/'

/-- A solid character is not. -/
theorem skip_isSolid (c : Char) (cs : List Char) (hc : isSolid c = true) :
    skip (c :: cs) = c :: cs := by
  unfold isSolid at hc
  simp only [Bool.and_eq_true, Bool.not_eq_true', decide_eq_true_eq] at hc
  refine skip_solid c cs hc.1 ?_
  unfold comment?
  -- Both kinds of comments start with the same character.
  split
  · rename_i heq
    cases heq
    exact absurd rfl hc.2
  · rename_i heq
    cases heq
    exact absurd rfl hc.2
  · rfl

/-- Skipping twice is skipping once. -/
theorem skip_skip (cs : List Char) : skip (skip cs) = skip cs := by
  fun_induction skip cs with
  | case1 => rw [skip]
  | case2 c cs hspace ih => exact ih
  | case3 c cs hspace rest hcomment ih => exact ih
  -- Nothing is skipped, so the second time meets the same character.
  | case4 c cs hspace hcomment =>
      exact skip_solid c cs (Bool.not_eq_true _ ▸ hspace) hcomment

/-- Skipping takes characters off and adds none. -/
theorem skip_length_le (cs : List Char) : (skip cs).length ≤ cs.length := by
  fun_induction skip cs with
  | case1 => exact Nat.le_refl _
  | case2 c cs hspace ih =>
      rw [List.length_cons]
      omega
  | case3 c cs hspace rest hcomment ih =>
      -- A comment is not empty, so something was taken off.
      have hlt := comment?_length hcomment
      omega
  | case4 c cs hspace hcomment => exact Nat.le_refl _

end Skipping

/-- `p` reads `a` from `cs` and leaves `cs'`, where blanks in front of either
    text do not count. -/
def Reads {α : Type} (p : Reader α) (cs : List Char) (a : α) (cs' : List Char) : Prop :=
  ∃ r, p.run (skip cs) = some (a, r) ∧ skip r = skip cs'

/-- `p` refuses the text `cs`. -/
def Fails {α : Type} (p : Reader α) (cs : List Char) : Prop :=
  p.run (skip cs) = none

/-- The rounds of a repetition of `p` from `cs`, which stop at `cs'`. -/
inductive Rounds {α : Type} (p : Reader α) : List Char → List α → List Char → Prop where
  | done (cs : List Char) (h : Fails p cs) : Rounds p cs [] cs
  | step (cs : List Char) (a : α) (cs₁ : List Char) (as : List α) (cs' : List Char)
      (h : Reads p cs a cs₁) (hlt : (skip cs₁).length < (skip cs).length)
      (hrest : Rounds p cs₁ as cs') : Rounds p cs (a :: as) cs'

section Combinators

variable {α β γ : Type} {p q : Reader α} {cs cs₁ cs₂ : List Char} {a : α} {b : β}

/-- A sequence runs its rest on what its first part left. -/
theorem bind_run (p : Reader α) (f : α → Reader β) (cs : List Char) :
    (p >>= f).run cs = match p.run cs with
      | none => none
      | some (a, rest) => (f a).run rest := rfl

theorem bind_run_some {f : α → Reader β} (h : p.run cs = some (a, cs₁)) :
    (p >>= f).run cs = (f a).run cs₁ := by
  rw [bind_run, h]

/-- A choice keeps the text for its second branch. -/
theorem orElse_run (p q : Reader α) (cs : List Char) :
    (p.orElse q).run cs = match p.run cs with
      | some r => some r
      | none => q.run cs := rfl

/-- An option that reads nothing leaves the text as it was. -/
theorem optional_run (p : Reader α) (cs : List Char) :
    (optional p).run cs = match p.run cs with
      | some (a, rest) => some (some a, rest)
      | none => some (none, cs) := rfl

/-- A repetition reads once without skipping, and then in rounds that skip
    first. -/
theorem repeated_run (p : Reader α) (cs : List Char) :
    (repeated p).run cs = match p.run cs with
      | none => some ([], cs)
      | some (a, rest) =>
        some (a :: (roundsRun skip p (rest.length + 1) rest).1,
          (roundsRun skip p (rest.length + 1) rest).2) := rfl

/-- A run from the first solid character reads. -/
theorem reads_of_run (r : List Char) (h : p.run (skip cs) = some (a, r)) : Reads p cs a r :=
  ⟨r, h, rfl⟩

/-- A blank in front of the text makes no difference. -/
theorem reads_blank (c : Char) (hc : isSpace c = true) (h : Reads p cs a cs₁) :
    Reads p (c :: cs) a cs₁ := by
  rcases h with ⟨r, hrun, hr⟩
  refine ⟨r, ?_, hr⟩
  rw [skip_space c cs hc]
  exact hrun

/-- Nor does it for a refusal. -/
theorem fails_blank (c : Char) (hc : isSpace c = true) (h : Fails p cs) : Fails p (c :: cs) := by
  unfold Fails
  rw [skip_space c cs hc]
  exact h

/-- A blank in front of what is left makes no difference. -/
theorem reads_leave_blank (c : Char) (hc : isSpace c = true) (h : Reads p cs a (c :: cs₁)) :
    Reads p cs a cs₁ := by
  rcases h with ⟨r, hrun, hr⟩
  refine ⟨r, hrun, ?_⟩
  rw [hr, skip_space c cs₁ hc]

/-- Two parts with a gap between them. -/
theorem reads_seq {k : α → Reader β} (hp : Reads p cs a cs₁) (hk : Reads (k a) cs₁ b cs₂) :
    Reads (p >>= fun a => gap >>= fun _ => k a) cs b cs₂ := by
  rcases hp with ⟨r, hrun, hr⟩
  rcases hk with ⟨r', hrun', hr'⟩
  refine ⟨r', ?_, hr'⟩
  rw [bind_run, hrun]
  -- The gap skips what the first part left, so both parts agree on where the second begins.
  change (k a).run (skip r) = some (b, r')
  rw [hr]
  exact hrun'

/-- A sequence is refused where its second part is. -/
theorem fails_seq {k : α → Reader β} (hp : Reads p cs a cs₁) (hk : Fails (k a) cs₁) :
    Fails (p >>= fun a => gap >>= fun _ => k a) cs := by
  rcases hp with ⟨r, hrun, hr⟩
  unfold Fails
  rw [bind_run, hrun]
  -- Again the gap takes the second part to where it begins.
  change (k a).run (skip r) = none
  rw [hr]
  exact hk

/-- Or where its first part is. -/
theorem fails_bind {k : α → Reader β} (hp : Fails p cs) : Fails (p >>= k) cs := by
  unfold Fails
  rw [bind_run, hp]

/-- A value that is made of what was read. -/
theorem reads_map (f : α → β) (hp : Reads p cs a cs₁) :
    Reads (p >>= fun a => pure (f a)) cs (f a) cs₁ := by
  rcases hp with ⟨r, hrun, hr⟩
  refine ⟨r, ?_, hr⟩
  rw [bind_run, hrun]
  rfl

/-- The end of a rule after its last mark. -/
theorem reads_return (hp : Reads p cs a cs₁) : Reads (p >>= fun _ => pure b) cs b cs₁ :=
  reads_map (fun _ => b) hp

theorem reads_rule (r : Rule) (hp : Reads p cs a cs₁) : Reads (rule r p) cs a cs₁ := hp

/-- A rule that remembers where it starts. -/
theorem reads_rest {k : List Char → Reader β} (hk : Reads (k (skip cs)) cs b cs₁) :
    Reads (Parser.rest >>= k) cs b cs₁ := hk

theorem fails_rest {k : List Char → Reader β} (hk : Fails (k (skip cs)) cs) :
    Fails (Parser.rest >>= k) cs := hk

theorem reads_delay {f : Unit → Reader α} (hp : Reads (f ()) cs a cs₁) :
    Reads (delay f) cs a cs₁ := hp

theorem fails_rule (r : Rule) (hp : Fails p cs) : Fails (rule r p) cs := hp

/-- A choice reads what its first branch reads. -/
theorem reads_orElse_left (hp : Reads p cs a cs₁) : Reads (p.orElse q) cs a cs₁ := by
  rcases hp with ⟨r, hrun, hr⟩
  refine ⟨r, ?_, hr⟩
  rw [orElse_run, hrun]

/-- Its second branch starts from the same text. -/
theorem reads_orElse_right (hp : Fails p cs) (hq : Reads q cs a cs₁) :
    Reads (p.orElse q) cs a cs₁ := by
  rcases hq with ⟨r, hrun, hr⟩
  refine ⟨r, ?_, hr⟩
  rw [orElse_run, hp]
  exact hrun

theorem fails_orElse (hp : Fails p cs) (hq : Fails q cs) : Fails (p.orElse q) cs := by
  unfold Fails
  rw [orElse_run, hp]
  exact hq

theorem fails_fail : Fails (fail : Reader α) cs := rfl

/-- An option reads what its parser reads. -/
theorem reads_optional (hp : Reads p cs a cs₁) : Reads (optional p) cs (some a) cs₁ := by
  rcases hp with ⟨r, hrun, hr⟩
  refine ⟨r, ?_, hr⟩
  rw [optional_run, hrun]

/-- Or nothing, where its parser refuses. -/
theorem reads_optional_none (hp : Fails p cs) : Reads (optional p) cs none cs := by
  refine ⟨skip cs, ?_, skip_skip cs⟩
  rw [optional_run, hp]

/-- A prefix is taken off exactly if it is one. -/
theorem isPrefixOf?_eq_some_iff (w cs rest : List Char) :
    w.isPrefixOf? cs = some rest ↔ cs = w ++ rest := by
  induction w generalizing cs with
  | nil =>
      rw [List.isPrefixOf?, Option.some.injEq, List.nil_append]
  | cons c w ih =>
      cases cs with
      | nil => simp [List.isPrefixOf?]
      | cons d cs =>
          -- Two different first characters end the comparison.
          by_cases hcd : c = d
          · rw [hcd]
            simp [List.isPrefixOf?, ih cs]
          · have hdc : ¬ d = c := fun h => hcd h.symm
            simp [List.isPrefixOf?, hcd, hdc]

/-- Without the prefix nothing is taken off. -/
theorem isPrefixOf?_eq_none (w cs : List Char) (h : ¬ w <+: cs) : w.isPrefixOf? cs = none := by
  cases heq : w.isPrefixOf? cs with
  | none => rfl
  | some rest => exact absurd ⟨rest, ((isPrefixOf?_eq_some_iff w cs rest).mp heq).symm⟩ h

/-- A fixed text is taken off a text that starts with it. -/
theorem literal_run (s : String) (cs : List Char) :
    (literal s : Reader Unit).run (s.toList ++ cs) = some ((), cs) := by
  change (s.toList.isPrefixOf? (s.toList ++ cs)).map _ = _
  rw [(isPrefixOf?_eq_some_iff _ _ cs).mpr rfl]
  rfl

/-- It is read where skipping leads to it. -/
theorem reads_literal (s : String) (h : skip cs = s.toList ++ cs₁) :
    Reads (literal s) cs () cs₁ := by
  refine reads_of_run cs₁ ?_
  rw [h]
  exact literal_run s cs₁

theorem literal_run_none (s : String) (cs : List Char) (h : ¬ s.toList <+: cs) :
    (literal s : Reader Unit).run cs = none := by
  change (s.toList.isPrefixOf? cs).map _ = none
  rw [isPrefixOf?_eq_none s.toList cs h]
  rfl

/-- It is refused where skipping leads to something else. -/
theorem fails_literal (s : String) (h : ¬ s.toList <+: skip cs) : Fails (literal s) cs :=
  literal_run_none s (skip cs) h

/-- Nothing is skipped in front of a text that starts with a solid character. -/
theorem skip_text (s : String) (c : Char) (rest : List Char) (hs : s.toList.head? = some c)
    (hc : isSolid c = true) : skip (s.toList ++ rest) = s.toList ++ rest := by
  rcases List.head?_eq_some_iff.mp hs with ⟨w, hw⟩
  rw [hw]
  exact skip_isSolid c (w ++ rest) hc

/-- A fixed text is read where it stands. -/
theorem reads_text (s : String) (c : Char) (rest : List Char) (hs : s.toList.head? = some c)
    (hc : isSolid c = true) : Reads (literal s) (s.toList ++ rest) () rest :=
  reads_literal s (skip_text s c rest hs hc)

/-- A fixed text is read with a blank on either side. -/
theorem reads_spaced (s : String) (c : Char) (rest : List Char) (hs : s.toList.head? = some c)
    (hc : isSolid c = true) :
    Reads (literal s) (' ' :: (s.toList ++ ' ' :: rest)) () rest :=
  reads_blank ' ' rfl (reads_leave_blank ' ' rfl (reads_text s c (' ' :: rest) hs hc))

/-- A fixed text is refused where another character stands. -/
theorem fails_text (s : String) (d c : Char) (rest : List Char) (hs : s.toList.head? = some d)
    (hc : isSolid c = true) (hne : d ≠ c) : Fails (literal s) (c :: rest) := by
  rcases List.head?_eq_some_iff.mp hs with ⟨w, hw⟩
  refine fails_literal s ?_
  rw [skip_isSolid c rest hc, hw]
  -- Two texts that start differently do not start alike.
  intro hstarts
  exact hne (List.cons_prefix_cons.mp hstarts).1

/-- At a solid character a refusal is one without skipping. -/
theorem fails_solid (c : Char) (rest : List Char) (hc : isSolid c = true)
    (h : p.run (c :: rest) = none) : Fails p (c :: rest) := by
  unfold Fails
  rw [skip_isSolid c rest hc]
  exact h

/-- So is a reading. -/
theorem reads_solid (c : Char) (rest : List Char) (hc : isSolid c = true)
    (h : p.run (c :: rest) = some (a, cs₁)) : Reads p (c :: rest) a cs₁ := by
  refine reads_of_run cs₁ ?_
  rw [skip_isSolid c rest hc]
  exact h

/-- With enough fuel a repetition runs its rounds, wherever it starts between
    the blanks. -/
theorem roundsRun_of_rounds {as : List α} {cs' : List Char} (h : Rounds p cs as cs')
    (fuel : Nat) (r : List Char) (hr : skip r = skip cs) (hfuel : as.length ≤ fuel) :
    ∃ r', roundsRun skip p fuel r = (as, r') ∧ skip r' = skip cs' := by
  induction h generalizing fuel r with
  | done cs hfail =>
      refine ⟨r, ?_, hr⟩
      cases fuel with
      | zero => rfl
      | succ fuel =>
          -- The round that fails is the last one.
          have hrun : p.run (skip r) = none := by
            rw [hr]
            exact hfail
          rw [roundsRun, hrun]
  | step cs a cs₁ as cs' hread hlt hrest ih =>
      rcases hread with ⟨r₁, hrun, hr₁⟩
      cases fuel with
      | zero => exact absurd hfuel (Nat.not_succ_le_zero _)
      | succ fuel =>
          -- The rest starts from what this round left.
          rcases ih fuel r₁ hr₁ (Nat.le_of_succ_le_succ hfuel) with ⟨r', hrounds, hr'⟩
          refine ⟨r', ?_, hr'⟩
          rw [roundsRun, hr, hrun]
          simp only [hrounds]

/-- There are no more rounds than characters. -/
theorem rounds_length {as : List α} {cs' : List Char} (h : Rounds p cs as cs') :
    as.length ≤ (skip cs).length := by
  induction h with
  | done cs hfail => exact Nat.zero_le _
  | step cs a cs₁ as cs' hread hlt hrest ih =>
      rw [List.length_cons]
      -- Every round takes a character at least.
      omega

/-- A round that leaves less text than it was given. -/
theorem rounds_cons {as : List α} {cs' : List Char} (h : Reads p cs a cs₁)
    (hlt : cs₁.length < (skip cs).length) (hrest : Rounds p cs₁ as cs') :
    Rounds p cs (a :: as) cs' :=
  Rounds.step cs a cs₁ as cs' h (Nat.lt_of_le_of_lt (skip_length_le cs₁) hlt) hrest

/-- An item is no longer than all items together. -/
theorem length_le_flatMap {ι : Type} (text : ι → List Char) (x : ι) (xs : List ι) (hx : x ∈ xs) :
    (text x).length ≤ (xs.flatMap text).length := by
  rcases List.append_of_mem hx with ⟨before, after, rfl⟩
  rw [List.flatMap_append, List.flatMap_cons, List.length_append, List.length_append]
  omega

/-- Items that are written one after the other are read back in rounds, if
    each is read whatever follows it. -/
theorem rounds_flatMap {ι : Type} (text : ι → List Char) (value : ι → α) (xs : List ι)
    {as : List α} {rest rest' : List Char}
    (hitem : ∀ y ∈ xs, ∀ r, Reads p (text y ++ r) (value y) r ∧
      r.length < (skip (text y ++ r)).length)
    (hrest : Rounds p rest as rest') :
    Rounds p (xs.flatMap text ++ rest) (xs.map value ++ as) rest' := by
  induction xs with
  | nil => exact hrest
  | cons x xs ih =>
      rcases hitem x List.mem_cons_self (xs.flatMap text ++ rest) with ⟨hread, hlt⟩
      rw [List.flatMap_cons, List.append_assoc]
      -- What follows an item are the other items and the rest.
      exact rounds_cons hread hlt (ih fun y hy => hitem y (List.mem_cons_of_mem x hy))

/-- A repetition reads its rounds. -/
theorem reads_repeated {as : List α} {cs' : List Char} (h : Rounds p cs as cs') :
    Reads (repeated p) cs as cs' := by
  cases h with
  | done cs hfail =>
      refine ⟨skip cs, ?_, skip_skip cs⟩
      rw [repeated_run, hfail]
  | step cs a cs₁ as cs' hread hlt hrest =>
      rcases hread with ⟨r, hrun, hr⟩
      -- Every round takes a character, so the fuel of a repetition is enough.
      have hlen : as.length ≤ r.length + 1 := by
        have hbound := rounds_length hrest
        rw [← hr] at hbound
        have hle := skip_length_le r
        omega
      rcases roundsRun_of_rounds hrest (r.length + 1) r hr hlen with ⟨r', hrounds, hr'⟩
      refine ⟨r', ?_, hr'⟩
      rw [repeated_run, hrun]
      simp only [hrounds]

/-- One or more items with separators between them. -/
theorem reads_separated (sep : String) {as : List α}
    (hp : Reads p cs a cs₁)
    (hrounds : Rounds (literal sep >>= fun _ => gap >>= fun _ => p) cs₁ as cs₂) :
    Reads (separated sep p) cs (a :: as) cs₂ :=
  reads_seq hp (reads_map (a :: ·) (reads_repeated hrounds))

/-- Items that are each written behind a separator and a blank are read back
    in rounds. What they are written as is the rest or starts with a separator. -/
theorem rounds_behind {ι : Type} (sep : String) (c : Char) (hsep : sep.toList.head? = some c)
    (hc : isSolid c = true) (text : ι → List Char) (value : ι → α) (xs : List ι)
    (rest : List Char)
    (hitem : ∀ y ∈ xs, ∀ r, r = rest ∨ (∃ r', r = sep.toList ++ ' ' :: r') →
      Reads p (text y ++ r) (value y) r)
    (hstop : Fails (literal sep) rest) :
    Rounds (literal sep >>= fun _ => gap >>= fun _ => p)
        (xs.flatMap (fun y => sep.toList ++ ' ' :: text y) ++ rest) (xs.map value) rest ∧
      (xs.flatMap (fun y => sep.toList ++ ' ' :: text y) ++ rest = rest ∨
        ∃ r', xs.flatMap (fun y => sep.toList ++ ' ' :: text y) ++ rest
          = sep.toList ++ ' ' :: r') := by
  induction xs with
  | nil => exact ⟨Rounds.done rest (fails_bind hstop), Or.inl rfl⟩
  | cons x xs ih =>
      rcases ih fun y hy => hitem y (List.mem_cons_of_mem x hy) with ⟨htail, hends⟩
      have htext : (x :: xs).flatMap (fun y => sep.toList ++ ' ' :: text y) ++ rest
          = sep.toList ++ ' ' :: (text x ++
              (xs.flatMap (fun y => sep.toList ++ ' ' :: text y) ++ rest)) := by
        rw [List.flatMap_cons, List.append_assoc, List.append_assoc, List.cons_append]
      have hskip : ∀ r, skip (sep.toList ++ r) = sep.toList ++ r :=
        fun r => skip_text sep c r hsep hc
      rw [htext]
      -- The separator alone makes the round shorten the text.
      refine ⟨rounds_cons ?_ ?_ htail, Or.inr ⟨_, rfl⟩⟩
      · refine reads_seq (reads_literal sep (hskip _)) ?_
        exact reads_blank ' ' rfl (hitem x List.mem_cons_self _ hends)
      · rw [hskip]
        simp only [List.length_append, List.length_cons]
        omega

/-- Items that are written with a separator and a blank between them are read
    back, if each is read in front of a separator and the last in front of the
    rest. -/
theorem reads_list {ι : Type} (sep : String) (c : Char) (hsep : sep.toList.head? = some c)
    (hc : isSolid c = true)
    (text : ι → List Char) (value : ι → α) (x : ι) (xs : List ι) (rest : List Char)
    (hitem : ∀ y ∈ x :: xs, ∀ r, r = rest ∨ (∃ r', r = sep.toList ++ ' ' :: r') →
      Reads p (text y ++ r) (value y) r)
    (hstop : Fails (literal sep) rest) :
    Reads (separated sep p)
      (text x ++ (xs.flatMap (fun y => sep.toList ++ ' ' :: text y) ++ rest))
      (value x :: xs.map value) rest := by
  rcases rounds_behind sep c hsep hc text value xs rest
    (fun y hy => hitem y (List.mem_cons_of_mem x hy)) hstop with ⟨htail, hends⟩
  exact reads_separated sep (hitem x List.mem_cons_self _ hends) htail

/-- The text of a list with separators between its items. -/
theorem toList_intercalate_cons {ι : Type} (sep : String) (f : ι → String) (x : ι) (xs : List ι) :
    (String.intercalate sep ((x :: xs).map f)).toList
      = (f x).toList ++ xs.flatMap fun y => sep.toList ++ (f y).toList := by
  induction xs generalizing x with
  | nil => simp
  | cons y ys ih =>
      rw [List.map_cons, List.map_cons, String.intercalate_cons_cons, String.toList_append,
        String.toList_append, ← List.map_cons, ih y, List.flatMap_cons]
      simp only [List.append_assoc]

/-- Parts without flaws are joined. -/
theorem joined_ok (g : α → β) (xs : List α) :
    joined (xs.map fun x => .ok (g x)) = .ok (xs.map g) := by
  unfold joined
  rw [traverseList_map]
  exact traverseList_eq_map _ g xs fun _ _ => rfl

theorem joined_map_ok (xs : List α) : joined (xs.map .ok) = .ok xs := by
  have hjoined := joined_ok id xs
  rw [List.map_id] at hjoined
  exact hjoined

end Combinators

end Source

end DataflowCircuit
