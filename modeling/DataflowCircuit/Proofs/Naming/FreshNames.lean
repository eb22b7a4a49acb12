import DataflowCircuit.NameSupply
import DataflowCircuit.Proofs.Naming.Names

/-!
# Fresh Names Are Fresh

A name supply searches for a name that is not taken, with as much fuel as there
are taken names to run into. This file shows that the fuel is never used up, so
that every name a supply gives out is new.

The two searches run into taken names in different ways. The numbers of a stem
are all different, so each refused name is one taken name less. A plain search
may refuse its stem once without a number, and from then on every name it tries
is longer than the one before; so the taken names that are longer than the stem
are what it can still run into, each of them at most twice.

What a fresh name looks like at its end is all that is needed to tell it from
the other names of a process: a digit, or the last character of its stem.

## Main definitions

* `NameSupply.Steady`: A supply whose counters never go back.
* `NameSupply.Draws`: Names that were given out one after another.

## Theorems

* `NameSupply.drawn_numbered`, `NameSupply.drawn_plain`: A search succeeds.
* `NameSupply.draws_numbered`, `NameSupply.draws_plain`: A name is fresh.
* `NameSupply.Draws.append`: So are the names after it.
-/

namespace DataflowCircuit

namespace NameSupply

/-- A supply in which no counter is below the one that a plain name starts
    with. -/
def Steady (ns : NameSupply) : Prop :=
  ∀ stem n, ns.counters.lookup stem = some n → -1 ≤ n

/-- The number that a stem gets next. -/
def next (ns : NameSupply) (stem : String) (first : Int) : Int :=
  ((ns.counters.lookup stem).map (· + 1)).getD first

/-- Setting a counter changes no other. -/
theorem lookup_setCounter (stem s : String) (n : Int) (cs : List (String × Int)) :
    (setCounter stem n cs).lookup s = if s = stem then some n else cs.lookup s := by
  induction cs with
  | nil =>
      by_cases hs : s = stem
      · simp [setCounter, hs]
      · have hb : (s == stem) = false := by simp [hs]
        simp [setCounter, List.lookup_cons, hb, hs]
  | cons entry rest ih =>
      rcases entry with ⟨t, m⟩
      unfold setCounter
      by_cases ht : t = stem
      · rw [if_pos ht, List.lookup_cons, List.lookup_cons]
        by_cases hs : s = stem
        · simp [hs, ht]
        · have hb : (s == t) = false := by simp [ht, hs]
          simp [hb, hs]
      · rw [if_neg ht, List.lookup_cons, List.lookup_cons, ih]
        by_cases hs : s = t
        · subst hs
          simp [ht]
        · have hb : (s == t) = false := by simp [hs]
          simp [hb]

/-- Advancing a counter gives the next number and takes no name. -/
theorem advance_eq (ns : NameSupply) (stem : String) (first : Int) :
    ns.advance stem first
      = (ns.next stem first,
        { ns with counters := setCounter stem (ns.next stem first) ns.counters }) := by
  unfold advance next
  cases ns.counters.lookup stem <;> rfl

/-- The next number is one more than the counter. -/
theorem next_setCounter (ns : NameSupply) (stem : String) (n first : Int) :
    ({ ns with counters := setCounter stem n ns.counters } : NameSupply).next stem first
      = n + 1 := by
  unfold next
  rw [lookup_setCounter, if_pos rfl]
  rfl

/-- A stem with a counter gets a number that is not negative. -/
theorem Steady.next_ge {ns : NameSupply} (h : ns.Steady) (stem : String) (first : Int)
    (hnew : ns.counters.lookup stem = none → 0 ≤ first) : 0 ≤ ns.next stem first := by
  unfold next
  cases hlook : ns.counters.lookup stem with
  | none => exact hnew hlook
  | some n =>
      have hn := h stem n hlook
      change 0 ≤ n + 1
      omega

/-- Counters stay in their range when they grow. -/
theorem Steady.set {ns : NameSupply} (h : ns.Steady) (stem : String) (n : Int) (hn : -1 ≤ n) :
    Steady { ns with counters := setCounter stem n ns.counters } := by
  intro s m hm
  change (setCounter stem n ns.counters).lookup s = some m at hm
  rw [lookup_setCounter] at hm
  split at hm
  · cases hm
    exact hn
  · exact h s m hm

/-- A number that is not negative is written in digits. -/
theorem toList_numbered (stem : String) (n : Int) (hn : 0 ≤ n) :
    (stem ++ toString n).toList = stem.toList ++ Nat.toDigits 10 n.natAbs := by
  rw [String.toList_append, intText_toList, if_neg (by omega)]

/-- Names of one stem differ in their numbers. -/
theorem numbered_inj (stem : String) (n m : Int) (hn : 0 ≤ n) (hm : 0 ≤ m)
    (h : stem ++ toString n = stem ++ toString m) : n = m := by
  have hlist := congrArg String.toList h
  rw [toList_numbered stem n hn, toList_numbered stem m hm, List.append_cancel_left_eq] at hlist
  have habs := toDigits_inj _ _ hlist
  omega

/-- What a supply gives out for a stem: a name that was not taken and is taken
    afterwards, made of the stem and digits. -/
structure Drawn (ns : NameSupply) (stem : String) (r : String × NameSupply) : Prop where
  fresh : r.1 ∉ ns.taken
  taken : r.2.taken = r.1 :: ns.taken
  steady : r.2.Steady
  spelled : ∃ ds : List Char, (∀ c ∈ ds, c.isDigit = true) ∧ r.1.toList = stem.toList ++ ds

section Drawing

variable {ns : NameSupply} {stem : String} {r : String × NameSupply}

/-- Counters have no say in what is drawn. -/
theorem Drawn.recounted {counters : List (String × Int)}
    (h : Drawn { ns with counters } stem r) : Drawn ns stem r :=
  ⟨h.fresh, h.taken, h.steady, h.spelled⟩

/-- What is drawn for a longer stem is drawn for the stem itself. -/
theorem Drawn.behind (n : Int) (hn : 0 ≤ n) (h : Drawn ns (stem ++ toString n) r) :
    Drawn ns stem r := by
  rcases h.spelled with ⟨ds, hds, hspelled⟩
  refine ⟨h.fresh, h.taken, h.steady, Nat.toDigits 10 n.natAbs ++ ds, fun c hc => ?_, ?_⟩
  · rcases List.mem_append.mp hc with hc | hc
    · exact Text.isDigit_toDigits _ c hc
    · exact hds c hc
  · rw [hspelled, toList_numbered stem n hn, List.append_assoc]

/-- A stem with a number is drawn if it is free. -/
theorem drawn_of_free (counters : List (String × Int)) (n : Int) (hn : 0 ≤ n)
    (hsteady : Steady { ns with counters }) (hfree : stem ++ toString n ∉ ns.taken) :
    Drawn ns stem (stem ++ toString n, NameSupply.take { ns with counters } (stem ++ toString n)) :=
  ⟨hfree, rfl, hsteady, _, Text.isDigit_toDigits _, toList_numbered stem n hn⟩

/-- A number makes a stem longer. -/
theorem length_numbered (stem : String) (n : Int) (hn : 0 ≤ n) :
    stem.toList.length < (stem ++ toString n).toList.length := by
  have hpos := List.length_pos_iff.mpr (Nat.toDigits_ne_nil (n := n.natAbs) (b := 10))
  rw [toList_numbered stem n hn, List.length_append]
  omega

end Drawing

/-- The numbers of a stem are tried until one is free. The names in `names` are
    those that the search can still run into. -/
theorem drawn_numberedLoop (stem : String) (fuel : Nat) (ns : NameSupply) (names : List String)
    (h : ns.Steady) (hfuel : names.length < fuel)
    (hnames : ∀ n, ns.next stem 0 ≤ n → stem ++ toString n ∈ ns.taken →
      stem ++ toString n ∈ names) :
    Drawn ns stem (numberedLoop stem fuel ns) ∧
      ∃ d ds, (numberedLoop stem fuel ns).1.toList = stem.toList ++ d :: ds := by
  induction fuel generalizing ns names with
  | zero => exact absurd hfuel (Nat.not_lt_zero _)
  | succ fuel ih =>
      -- The search starts at zero or above and counts up, so it never repeats a number.
      have hge := h.next_ge stem 0 fun _ => Int.le_refl 0
      have hsteady := h.set stem (ns.next stem 0) (by omega)
      unfold numberedLoop
      rw [advance_eq]
      dsimp only
      split
      · -- The number is taken. It is not tried again, so one name less is in the way.
        rename_i hmem
        have hin := hnames _ (Int.le_refl _) hmem
        have hlength := List.length_erase_of_mem hin
        have hpos := List.length_pos_of_mem hin
        have hleft : ∀ n, ns.next stem 0 + 1 ≤ n → stem ++ toString n ∈ ns.taken →
            stem ++ toString n ∈ names.erase (stem ++ toString (ns.next stem 0)) := by
          intro n hn htaken
          refine (List.mem_erase_of_ne fun heq => ?_).mpr (hnames n (by omega) htaken)
          have hsame := numbered_inj stem _ _ (by omega) hge heq
          omega
        rcases ih _ (names.erase (stem ++ toString (ns.next stem 0))) hsteady (by omega)
          (by rw [next_setCounter]; exact hleft) with ⟨hdrawn, hdigit⟩
        exact ⟨hdrawn.recounted, hdigit⟩
      · rename_i hmem
        refine ⟨drawn_of_free _ _ hge hsteady hmem, ?_⟩
        rcases Text.toDigits_head (ns.next stem 0).natAbs with ⟨d, ds, hds, _⟩
        exact ⟨d, ds, by rw [toList_numbered stem _ hge, hds]⟩

/-- A plain search tries its stem once and then longer names only. The names in
    `names` are the longer ones that it can still run into; each costs a try as
    a name and at most one as a stem. -/
theorem drawn_plainLoop (fuel : Nat) (stem : String) (ns : NameSupply) (names : List String)
    (h : ns.Steady)
    (hfuel : 2 * names.length + (if (ns.counters.lookup stem).isSome then 1 else 2) ≤ fuel)
    (hnames : ∀ name ∈ ns.taken, stem.toList.length < name.toList.length → name ∈ names) :
    Drawn ns stem (plainLoop fuel stem ns) := by
  induction fuel generalizing stem ns names with
  | zero => split at hfuel <;> omega
  | succ fuel ih =>
      unfold plainLoop
      rw [advance_eq]
      dsimp only
      cases hlook : ns.counters.lookup stem with
      | none =>
          rw [hlook] at hfuel
          -- Without a counter the stem itself is tried first, which is what minus one stands for.
          have hnext : ns.next stem (-1) = -1 := by
            unfold next
            rw [hlook]
            rfl
          have hsteady := h.set stem (ns.next stem (-1)) (by omega)
          rw [if_pos hnext]
          split
          · -- The stem is taken, and its counter is there from now on.
            have hwarm : (setCounter stem (ns.next stem (-1)) ns.counters).lookup stem
                = some (ns.next stem (-1)) := by rw [lookup_setCounter, if_pos rfl]
            have hdrawn := ih stem _ names hsteady (by
              rw [hwarm]
              simp only [Option.isSome_none, Option.isSome_some, if_true, Bool.false_eq_true,
                if_false] at hfuel ⊢
              omega) hnames
            exact hdrawn.recounted
          · rename_i hmem
            exact ⟨hmem, rfl, hsteady, [], fun _ hc => absurd hc List.not_mem_nil,
              (List.append_nil _).symm⟩
      | some n =>
          -- The stem has been tried, so it gets a number and what is tried is longer.
          rw [hlook] at hfuel
          have hge : 0 ≤ ns.next stem (-1) :=
            h.next_ge stem (-1) fun hnone => by rw [hlook] at hnone; cases hnone
          have hsteady := h.set stem (ns.next stem (-1)) (by omega)
          have hlonger := length_numbered stem (ns.next stem (-1)) hge
          have hne : ns.next stem (-1) ≠ -1 := by omega
          rw [if_neg hne]
          split
          · -- The longer name is taken and is the next stem. All that comes is longer still.
            rename_i hmem
            have hin := hnames _ hmem hlonger
            have hlength := List.length_erase_of_mem hin
            have hpos := List.length_pos_of_mem hin
            have hdrawn := ih (stem ++ toString (ns.next stem (-1))) _ (names.erase _) hsteady
              (by
                simp only [Option.isSome_some, if_true] at hfuel
                rw [hlength]
                split <;> omega)
              (fun name hname hlen => by
                refine (List.mem_erase_of_ne ?_).mpr (hnames name hname (by omega))
                rintro rfl
                exact absurd hlen (Nat.lt_irrefl _))
            exact hdrawn.recounted.behind _ hge
          · rename_i hmem
            exact drawn_of_free _ _ hge hsteady hmem

/-- Names that a supply gave out one after another: they are taken now, none was
    taken before, no two are the same, and each ends in a digit or in an f. -/
structure Draws (ns : NameSupply) (names : List String) (ns' : NameSupply) : Prop where
  steady : ns'.Steady
  taken : ∀ name, name ∈ ns'.taken ↔ name ∈ names ∨ name ∈ ns.taken
  nodup : names.Nodup
  fresh : ∀ name ∈ names, name ∉ ns.taken
  ends : ∀ name ∈ names, ∃ c, name.toList.getLast? = some c ∧ (c.isDigit = true ∨ c = 'f')

/-- Nothing was given out. -/
theorem draws_nil (ns : NameSupply) (h : ns.Steady) : Draws ns [] ns where
  steady := h
  taken := by simp
  nodup := List.nodup_nil
  fresh := fun _ hname => absurd hname List.not_mem_nil
  ends := fun _ hname => absurd hname List.not_mem_nil

/-- Names given out in two parts were given out in a row. -/
theorem Draws.append {ns ns' ns'' : NameSupply} {xs ys : List String} (h : Draws ns xs ns')
    (h' : Draws ns' ys ns'') : Draws ns (xs ++ ys) ns'' where
  steady := h'.steady
  taken := by
    intro name
    rw [h'.taken, h.taken, List.mem_append]
    tauto
  nodup := by
    refine List.nodup_append.mpr ⟨h.nodup, h'.nodup, fun x hx y hy heq => ?_⟩
    -- A name of the second part was not taken after the first.
    rw [heq] at hx
    exact h'.fresh y hy ((h.taken y).mpr (Or.inl hx))
  fresh := by
    intro name hname htaken
    rcases List.mem_append.mp hname with hname | hname
    · exact h.fresh name hname htaken
    · exact h'.fresh name hname ((h.taken name).mpr (Or.inr htaken))
  ends := by
    intro name hname
    rcases List.mem_append.mp hname with hname | hname
    · exact h.ends name hname
    · exact h'.ends name hname

/-- One name is a row of one. -/
theorem Drawn.draws {ns : NameSupply} {stem : String} {r : String × NameSupply}
    (h : Drawn ns stem r)
    (hend : ∃ c, r.1.toList.getLast? = some c ∧ (c.isDigit = true ∨ c = 'f')) :
    Draws ns [r.1] r.2 where
  steady := h.steady
  taken := by
    intro name
    rw [h.taken, List.mem_cons, List.mem_singleton]
  nodup := by simp
  fresh := by simpa using h.fresh
  ends := by simpa using hend

/-- A numbered name is drawn, and has a number. -/
theorem drawn_numbered (ns : NameSupply) (stem : String) (h : ns.Steady) :
    Drawn ns stem (ns.numbered stem) ∧
      ∃ d ds, (ns.numbered stem).1.toList = stem.toList ++ d :: ds :=
  drawn_numberedLoop stem (ns.taken.length + 1) ns ns.taken h (Nat.lt_succ_self _)
    fun _ _ htaken => htaken

/-- A plain name is drawn. -/
theorem drawn_plain (ns : NameSupply) (stem : String) (h : ns.Steady) :
    Drawn ns stem (ns.plain stem) :=
  drawn_plainLoop (2 * ns.taken.length + 2) stem ns ns.taken h (by split <;> omega)
    fun _ hname _ => hname

/-- A numbered name is fresh. -/
theorem draws_numbered (ns : NameSupply) (stem : String) (h : ns.Steady) :
    Draws ns [(ns.numbered stem).1] (ns.numbered stem).2 := by
  rcases drawn_numbered ns stem h with ⟨hdrawn, d, ds, hlist⟩
  refine hdrawn.draws ?_
  rcases hdrawn.spelled with ⟨es, hes, hspelled⟩
  -- The digits are those that the search appended.
  have hsame : es = d :: ds := List.append_cancel_left (hspelled.symm.trans hlist)
  refine ⟨(d :: ds).getLast (List.cons_ne_nil d ds), ?_, Or.inl (hes _ ?_)⟩
  · rw [hlist, List.getLast?_append_of_ne_nil _ (List.cons_ne_nil d ds),
      List.getLast?_eq_getLast_of_ne_nil (List.cons_ne_nil d ds)]
  · rw [hsame]
    exact List.getLast_mem _

/-- A plain name is fresh. -/
theorem draws_plain (ns : NameSupply) (stem : String) (h : ns.Steady)
    (hstem : stem.toList.getLast? = some 'f') :
    Draws ns [(ns.plain stem).1] (ns.plain stem).2 := by
  have hdrawn := drawn_plain ns stem h
  refine hdrawn.draws ?_
  rcases hdrawn.spelled with ⟨ds, hds, hspelled⟩
  rw [hspelled]
  -- A name without a number is the stem itself.
  by_cases hnil : ds = []
  · exact ⟨'f', by rw [hnil, List.append_nil]; exact hstem, Or.inr rfl⟩
  · refine ⟨ds.getLast hnil, ?_, Or.inl (hds _ (List.getLast_mem hnil))⟩
    rw [List.getLast?_append_of_ne_nil _ hnil, List.getLast?_eq_getLast_of_ne_nil hnil]

/-- Declared names have no counters. -/
theorem steady_ofNames (names : List String) : (ofNames names).Steady := by
  intro stem n hlook
  cases hlook

end NameSupply

end DataflowCircuit
