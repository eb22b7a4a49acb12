import DataflowCircuit.Proofs.Process.Scopes
import Mathlib.Logic.Relation
import Mathlib.Order.Bounds.Basic
import Mathlib.Order.MinMax
import Mathlib.Order.Nat

/-!
# Wires and Their Roots

A scope knows of every channel the root of its wire. Which wires there are is a
matter of the aliases: two channels are on one wire if the aliases that
succeeded lead from one to the other, whatever was declared in between and
whatever failed. This file shows that the roots are right, for every history of
a scope.

The argument needs one equation. `canonical` maps two identities to the same
root exactly if they are on one wire, and everything else follows from the fact
that a root is never later than the channels of its wire. A declaration keeps
the equation because a new channel is on a wire of its own. An alias keeps it
because it sends the later of two roots to the earlier one and every other root
to itself, which is what adding one pair to an equivalence does to its classes.

The roots can also be found without handing channels over, by letting the later
root point to the earlier one and following pointers until there is none. Every
pointer leads to an earlier declaration, so following them ends, and it ends at
the root that the scope knows.

Whether an alias succeeds depends on declarations alone: both names have to be
declared, with the same width, because a root has the width of every channel on
its wire. The order of aliases and the sides of each are therefore irrelevant.

## Main definitions

* `ScopeChange`: A declaration or an alias.
* `Scope.attemptAll`: A scope after changes were tried.
* `Scope.connections`, `Scope.pointers`: What the successful aliases among them
  connected, and the pointers they set.
* `SameWire`: The least equivalence that holds of all connected pairs.
* `Climbs`: Following pointers to their end.
* `Rearranged`: The same aliases in another order, with sides exchanged.

## Theorems

* `Scope.canonical_connect`: What an alias does to roots.
* `Scope.Wired.attempt`, `Scope.Pointed.attempt`: One change.
* `Scope.connectAll_succeeds_iff`: When aliases all succeed.
* `Scope.connectAll_rearranged`: Aliases may be rearranged.
* `aliases_resolve_to_earliest`: All of it, after any history.
-/

namespace DataflowCircuit

/-- Something that is done to a scope. -/
inductive ScopeChange where
  | declare (channel : NewChannel)
  | connect (lhs rhs : String)

/-- The least equivalence that holds of some pairs. -/
def SameWire (pairs : List (ChannelId × ChannelId)) : ChannelId → ChannelId → Prop :=
  Relation.EqvGen fun i j => (i, j) ∈ pairs

/-- Following pointers from an identity ends at `root`, which has none. -/
structure Climbs (pointers : List (ChannelId × ChannelId)) (id root : ChannelId) : Prop where
  path : Relation.ReflTransGen (fun child parent => pointers.lookup child = some parent) id root
  stops : pointers.lookup root = none

/-- The same aliases in another order, with sides exchanged here and there. -/
def Rearranged (aliases others : List (String × String)) : Prop :=
  ∃ turned, List.Forall₂ (fun a b => b = a ∨ b = a.swap) aliases turned ∧ turned.Perm others

namespace Scope

section Histories

/-- The scope after a change, if it succeeds. -/
def change (s : Scope) : ScopeChange → Except Error Scope
  | .declare c => s.declare c.name c.type c.kind
  | .connect lhs rhs => s.connect lhs rhs

/-- The scope after a change was tried. -/
def attempt (s : Scope) (c : ScopeChange) : Scope :=
  match s.change c with
  | .ok s' => s'
  | .error _ => s

/-- The scope after changes were tried in order. -/
def attemptAll (s : Scope) (cs : List ScopeChange) : Scope :=
  cs.foldl attempt s

/-- The identities that the two names of an alias were declared with. -/
def pair? (s : Scope) (a : String × String) : Option (ChannelId × ChannelId) :=
  match s.lookup a.1, s.lookup a.2 with
  | .ok i, .ok j => some (i, j)
  | _, _ => none

/-- What a change connects: an alias that succeeds connects its two names. -/
def connection (s : Scope) : ScopeChange → List (ChannelId × ChannelId)
  | .declare _ => []
  | .connect lhs rhs =>
    match s.connect lhs rhs with
    | .ok _ => (s.pair? (lhs, rhs)).toList
    | .error _ => []

/-- The pairs that are connected after changes were tried in order, from some
    pairs on. -/
def connections (s : Scope) (pairs : List (ChannelId × ChannelId)) :
    List ScopeChange → List (ChannelId × ChannelId)
  | [] => pairs
  | c :: cs => connections (s.attempt c) (s.connection c ++ pairs) cs

/-- The pointer that a change sets: an alias that succeeds lets the later of two
    different roots point to the earlier one. -/
def pointer (s : Scope) : ScopeChange → List (ChannelId × ChannelId)
  | .declare _ => []
  | .connect lhs rhs =>
    match s.connect lhs rhs, s.pair? (lhs, rhs) with
    | .ok _, some (i, j) =>
      let l := s.canonical i
      let r := s.canonical j
      if l = r then [] else [(max l r, min l r)]
    | _, _ => []

/-- The pointers after changes were tried in order, from some pointers on. -/
def pointers (s : Scope) (ps : List (ChannelId × ChannelId)) :
    List ScopeChange → List (ChannelId × ChannelId)
  | [] => ps
  | c :: cs => pointers (s.attempt c) (s.pointer c ++ ps) cs

end Histories

section Roots

variable {s : Scope}

/-- An identity that was never declared is its own root. -/
theorem canonical_root (s : Scope) (id : ChannelId) :
    s.canonical id = ((s.channel? id).map Channel.root).getD id := by
  unfold canonical
  cases s.channel? id with
  | none => rfl
  | some c => rfl

/-- A root is never later than the channels of its wire. -/
theorem canonical_le (hs : s.Sound) (id : ChannelId) : s.canonical id ≤ id := by
  cases hc : s.channel? id with
  | none =>
      unfold canonical
      rw [hc]
  | some c =>
      rw [canonical_eq s id c hc]
      exact hs.root_le id c hc

/-- A root is its own root. -/
theorem canonical_canonical (hs : s.Sound) (id : ChannelId) :
    s.canonical (s.canonical id) = s.canonical id := by
  cases hc : s.channel? id with
  | none =>
      have hself : s.canonical id = id := by
        unfold canonical
        rw [hc]
      rw [hself, hself]
  | some c =>
      rcases hs.root_root id c hc with ⟨d, hd, hroot, _⟩
      rw [canonical_eq s id c hc, canonical_eq s c.root d hd, hroot]

/-- A root has the width of the channels of its wire. -/
theorem width_canonical (hs : s.Sound) (id : ChannelId) :
    (s.channel? (s.canonical id)).map Channel.width = (s.channel? id).map Channel.width := by
  cases hc : s.channel? id with
  | none =>
      unfold canonical
      rw [hc, hc]
  | some c =>
      rcases hs.root_root id c hc with ⟨d, hd, _, hwidth⟩
      rw [canonical_eq s id c hc, hd, Option.map_some, Option.map_some, hwidth]

/-- An alias has a pair if both of its names are declared. -/
theorem pair?_eq_some_iff (a : String × String) (i j : ChannelId) :
    s.pair? a = some (i, j) ↔ s.lookup a.1 = .ok i ∧ s.lookup a.2 = .ok j := by
  unfold pair?
  cases s.lookup a.1 with
  | error e => simp
  | ok i' =>
      cases s.lookup a.2 with
      | error e => simp
      | ok j' => simp

/-- Exchanging the sides of an alias exchanges those of its pair. -/
theorem pair?_swap (a : String × String) (i j : ChannelId) :
    s.pair? a.swap = some (i, j) ↔ s.pair? a = some (j, i) := by
  rw [pair?_eq_some_iff, pair?_eq_some_iff, and_comm]
  rfl

/-- The channels of a scope with one more are the old ones and the new one. -/
theorem channel?_declared (s : Scope) (c : Channel) (id : ChannelId) :
    (⟨s.channels ++ [c]⟩ : Scope).channel? id = if id = s.size then some c else s.channel? id := by
  unfold channel? size
  rw [List.getElem?_append]
  split
  · rename_i hlt
    rw [if_neg (Nat.ne_of_lt hlt)]
  · rename_i hlt
    rw [List.getElem?_singleton]
    by_cases hid : id = s.channels.length
    · rw [if_pos hid, if_pos (by rw [hid, Nat.sub_self])]
    · have hle : s.channels.length ≤ id := Nat.le_of_not_lt hlt
      rw [if_neg hid, if_neg, List.getElem?_eq_none hle]
      exact fun hzero => hid (Nat.le_antisymm (Nat.le_of_sub_eq_zero hzero) hle)

/-- A new channel is on a wire of its own. -/
theorem canonical_declare (s' : Scope) (c : NewChannel)
    (h : s.declare c.name c.type c.kind = .ok s') (id : ChannelId) :
    s'.canonical id = s.canonical id := by
  rcases declare_ok s s' c.name c.type c.kind h with ⟨_, _, rfl⟩
  rw [canonical_root, canonical_root, channel?_declared]
  split
  · rename_i hid
    have hnone : s.channel? id = none := List.getElem?_eq_none (Nat.le_of_eq hid.symm)
    rw [hnone, hid]
    rfl
  · rfl

/-- A new name on a wire of its own keeps the invariant. -/
theorem sound_declare (hs : s.Sound) (s' : Scope) (c : NewChannel)
    (h : s.declare c.name c.type c.kind = .ok s') : s'.Sound := by
  rcases declare_ok s s' c.name c.type c.kind h with ⟨_, hname, rfl⟩
  refine ⟨?_, fun id d hd => ?_, fun id d hd => ?_⟩
  · unfold names
    rw [List.map_append, List.map_singleton]
    refine List.nodup_append.mpr ⟨hs.nodup, List.nodup_singleton _, fun a ha b hb hab => ?_⟩
    rw [hab, List.mem_singleton.mp hb] at ha
    exact hname ha
  · rw [channel?_declared] at hd
    split at hd
    · rename_i hid
      cases hd
      exact Nat.le_of_eq hid.symm
    · exact hs.root_le id d hd
  · rw [channel?_declared] at hd
    split at hd
    · -- The new channel is its own root.
      cases hd
      refine ⟨_, ?_, rfl, rfl⟩
      rw [channel?_declared, if_pos rfl]
    · rcases hs.root_root id d hd with ⟨e, he, hroot, hwidth⟩
      refine ⟨e, ?_, hroot, hwidth⟩
      rw [channel?_declared, if_neg, he]
      exact Nat.ne_of_lt (List.getElem?_eq_some_iff.mp he).1

/-- An alias sends the later of two roots to the earlier one, and every other
    root to itself. -/
theorem canonical_connect (hs : s.Sound) (s' : Scope) (lhs rhs : String)
    (h : s.connect lhs rhs = .ok s') : ∃ i j, s.pair? (lhs, rhs) = some (i, j) ∧ ∀ id,
      s'.canonical id = if s.canonical id = max (s.canonical i) (s.canonical j)
        then min (s.canonical i) (s.canonical j) else s.canonical id := by
  rcases except_bind_ok_iff.mp h with ⟨l, hl, h₁⟩
  rcases except_bind_ok_iff.mp h₁ with ⟨r, hr, _⟩
  rcases except_bind_ok_iff.mp hl with ⟨i, hi, hil⟩
  rcases except_bind_ok_iff.mp hr with ⟨j, hj, hjr⟩
  rw [except_pure_ok_iff] at hil hjr
  refine ⟨i, j, (pair?_eq_some_iff (lhs, rhs) i j).mpr ⟨hi, hj⟩, fun id => ?_⟩
  rw [hil, hjr]
  rcases resolve_ok s hs lhs l hl with ⟨cl, hcl, _⟩
  rcases resolve_ok s hs rhs r hr with ⟨cr, hcr, _⟩
  rw [connect_eq s lhs rhs l r cl cr hl hr hcl hcr] at h
  by_cases heq : l = r
  · rw [if_pos heq] at h
    cases h
    rw [heq, max_self, min_self]
    split
    · assumption
    · rfl
  · rw [if_neg heq] at h
    -- Wires of different widths are not joined.
    split at h
    · cases h
    · cases h
      rw [canonical_root (s.join _ _), join_channel?]
      cases hc : s.channel? id with
      | some c =>
          rw [canonical_eq s id c hc]
          simp only [Option.map_some, Option.getD_some]
          split
          · rfl
          · rfl
      | none =>
          -- An undeclared identity is no root of declared names.
          have hself : s.canonical id = id := by
            unfold canonical
            rw [hc]
          have hne : id ≠ max l r := by
            intro hid
            rcases le_total l r with hle | hle
            · rw [hid, max_eq_right hle, hcr] at hc
              cases hc
            · rw [hid, max_eq_left hle, hcl] at hc
              cases hc
          rw [hself, if_neg hne]
          rfl

end Roots

section Wires

/-- Wires grow with the pairs that make them. -/
theorem sameWire_mono {ps qs : List (ChannelId × ChannelId)} {i j : ChannelId}
    (h : ∀ p ∈ ps, SameWire qs p.1 p.2) (hij : SameWire ps i j) : SameWire qs i j := by
  induction hij with
  | rel i j hmem => exact h (i, j) hmem
  | refl i => exact .refl i
  | symm i j _ ih => exact .symm i j ih
  | trans i j k _ _ ih ih' => exact .trans i j k ih ih'

/-- A scope whose roots tell the wires apart that some pairs make. -/
structure Wired (s : Scope) (pairs : List (ChannelId × ChannelId)) : Prop where
  sound : s.Sound
  same_iff : ∀ i j, SameWire pairs i j ↔ s.canonical i = s.canonical j

variable {s : Scope} {pairs : List (ChannelId × ChannelId)}

/-- The root is the earliest channel of its wire. -/
theorem Wired.isLeast (h : s.Wired pairs) (id : ChannelId) :
    IsLeast {m | SameWire pairs id m} (s.canonical id) := by
  refine ⟨(h.same_iff id _).mpr (canonical_canonical h.sound id).symm, fun m hm => ?_⟩
  rw [(h.same_iff id m).mp hm]
  exact canonical_le h.sound m

/-- Everything on the wire of a declared channel is declared, with one width. -/
theorem Wired.width_eq (h : s.Wired pairs) (i j : ChannelId) (hij : SameWire pairs i j) :
    (s.channel? i).map Channel.width = (s.channel? j).map Channel.width := by
  rw [← width_canonical h.sound i, (h.same_iff i j).mp hij, width_canonical h.sound j]

/-- Without channels and pairs, every identity is alone. -/
theorem wired_empty : empty.Wired [] := by
  refine ⟨⟨List.nodup_nil, fun id c hc => ?_, fun id c hc => ?_⟩, fun i j => ⟨fun h => ?_, ?_⟩⟩
  · cases hc
  · cases hc
  · induction h with
    | rel i j hmem => exact absurd hmem List.not_mem_nil
    | refl i => rfl
    | symm i j _ ih => exact ih.symm
    | trans i j k _ _ ih ih' => exact ih.trans ih'
  · rintro rfl
    exact .refl i

/-- A declaration makes no connection. -/
theorem Wired.declare (h : s.Wired pairs) (s' : Scope) (c : NewChannel)
    (hdeclare : s.declare c.name c.type c.kind = .ok s') : s'.Wired pairs := by
  refine ⟨sound_declare h.sound s' c hdeclare, fun i j => ?_⟩
  rw [canonical_declare s' c hdeclare, canonical_declare s' c hdeclare]
  exact h.same_iff i j

/-- A pair that is added to an equivalence makes one class of two. -/
theorem sameWire_cons_iff (f : ChannelId → ChannelId)
    (h : ∀ x y, SameWire pairs x y ↔ f x = f y) (i j root child : ChannelId)
    (hends : root = f i ∧ child = f j ∨ root = f j ∧ child = f i) (x y : ChannelId) :
    SameWire ((i, j) :: pairs) x y ↔
      (if f x = child then root else f x) = (if f y = child then root else f y) := by
  have hold : ∀ x y, f x = f y → SameWire ((i, j) :: pairs) x y := fun x y hxy =>
    sameWire_mono (fun p hp => .rel _ _ (List.mem_cons_of_mem _ hp)) ((h x y).mpr hxy)
  have hnew : ∀ x y, f x = child → f y = root → SameWire ((i, j) :: pairs) x y := by
    intro x y hx hy
    have hij : SameWire ((i, j) :: pairs) i j := .rel i j List.mem_cons_self
    rcases hends with ⟨hroot, hchild⟩ | ⟨hroot, hchild⟩
    · exact .trans _ _ _ (hold x j (hx.trans hchild))
        (.trans _ _ _ (.symm _ _ hij) (hold i y (hroot.symm.trans hy.symm)))
    · exact .trans _ _ _ (hold x i (hx.trans hchild))
        (.trans _ _ _ hij (hold j y (hroot.symm.trans hy.symm)))
  constructor
  · -- The right side is an equivalence, so the pairs are all there is to check.
    intro hxy
    induction hxy with
    | rel x y hmem =>
        rcases List.mem_cons.mp hmem with heq | hmem
        · -- One end of the pair is the child, the other one the root.
          cases heq
          rcases hends with ⟨rfl, rfl⟩ | ⟨rfl, rfl⟩
          · rw [if_pos rfl]
            split
            · rfl
            · rfl
          · rw [if_pos rfl]
            split
            · rfl
            · rfl
        · rw [(h x y).mp (.rel x y hmem)]
    | refl x => rfl
    | symm x y _ ih => exact ih.symm
    | trans x y z _ _ ih ih' => exact ih.trans ih'
  · -- Both ends were sent to the root, or one of them, or neither.
    intro hxy
    by_cases hx : f x = child
    · by_cases hy : f y = child
      · exact hold x y (hx.trans hy.symm)
      · rw [if_pos hx, if_neg hy] at hxy
        exact hnew x y hx hxy.symm
    · by_cases hy : f y = child
      · rw [if_neg hx, if_pos hy] at hxy
        exact .symm _ _ (hnew y x hy hxy)
      · rw [if_neg hx, if_neg hy] at hxy
        exact hold x y hxy

/-- An alias connects the pair of its names. -/
theorem Wired.connect (h : s.Wired pairs) (s' : Scope) (lhs rhs : String)
    (hconnect : s.connect lhs rhs = .ok s') :
    ∃ i j, s.pair? (lhs, rhs) = some (i, j) ∧ s'.Wired ((i, j) :: pairs) := by
  rcases canonical_connect h.sound s' lhs rhs hconnect with ⟨i, j, hpair, hcanonical⟩
  refine ⟨i, j, hpair, (sound_connect s s' h.sound lhs rhs hconnect).1, fun x y => ?_⟩
  rw [hcanonical, hcanonical]
  refine sameWire_cons_iff s.canonical h.same_iff i j _ _ ?_ x y
  rcases le_total (s.canonical i) (s.canonical j) with hle | hle
  · exact Or.inl ⟨min_eq_left hle, max_eq_right hle⟩
  · exact Or.inr ⟨min_eq_right hle, max_eq_left hle⟩

/-- One change keeps the roots right. -/
theorem Wired.attempt (h : s.Wired pairs) (c : ScopeChange) :
    (s.attempt c).Wired (s.connection c ++ pairs) := by
  unfold Scope.attempt
  cases hchange : s.change c with
  | error e =>
      cases c with
      | declare c => exact h
      | connect lhs rhs =>
          have hnone : s.connection (.connect lhs rhs) = [] := by
            simp only [connection, show s.connect lhs rhs = .error e from hchange]
          rw [hnone]
          exact h
  | ok s' =>
      cases c with
      | declare c => exact h.declare s' c hchange
      | connect lhs rhs =>
          rcases h.connect s' lhs rhs hchange with ⟨i, j, hpair, hwired⟩
          have hone : s.connection (.connect lhs rhs) = [(i, j)] := by
            simp only [connection, show s.connect lhs rhs = .ok s' from hchange, hpair,
              Option.toList_some]
          rw [hone]
          exact hwired

/-- So do changes in order. -/
theorem Wired.attemptAll (h : s.Wired pairs) (cs : List ScopeChange) :
    (s.attemptAll cs).Wired (s.connections pairs cs) := by
  induction cs generalizing s pairs with
  | nil => exact h
  | cons c cs ih => exact ih (h.attempt c)

end Wires

section Pointers

/-- Pointers that lead from every identity to its root, and always to an earlier
    identity. -/
structure Pointed (s : Scope) (ps : List (ChannelId × ChannelId)) : Prop where
  earlier : ∀ p ∈ ps, p.2 < p.1
  climbs : ∀ id, Climbs ps id (s.canonical id)

variable {s : Scope} {ps : List (ChannelId × ChannelId)}

/-- A root has no pointer, for a pointer would lead away from it. -/
theorem Pointed.stops (h : s.Pointed ps) (id : ChannelId) (hid : s.canonical id = id) :
    ps.lookup id = none := by
  rw [← hid]
  exact (h.climbs id).stops

/-- Without pointers, every identity is where it leads. -/
theorem pointed_empty : empty.Pointed [] :=
  ⟨fun _ hp => absurd hp List.not_mem_nil, fun _ => ⟨.refl, rfl⟩⟩

/-- A new pointer from one root to an earlier one continues the walks that ended
    at the first. -/
theorem climbs_cons (child root id end_ : ChannelId) (hne : root ≠ child)
    (hchild : ps.lookup child = none) (hroot : ps.lookup root = none) (h : Climbs ps id end_) :
    Climbs ((child, root) :: ps) id (if end_ = child then root else end_) := by
  have hlookup : ∀ x, x ≠ child → List.lookup x ((child, root) :: ps) = ps.lookup x := by
    intro x hx
    rw [List.lookup_cons, beq_eq_false_iff_ne.mpr hx]
  have hpath : Relation.ReflTransGen
      (fun x y => List.lookup x ((child, root) :: ps) = some y) id end_ := by
    refine Relation.ReflTransGen.mono (fun x y hxy => ?_) _ _ h.path
    rw [hlookup, hxy]
    rintro rfl
    rw [hchild] at hxy
    cases hxy
  -- A walk that ended at the child takes one more step.
  split
  · rename_i hend
    rw [hend] at hpath
    refine ⟨hpath.tail ?_, ?_⟩
    · rw [List.lookup_cons_self]
    · rw [hlookup root hne, hroot]
  · rename_i hend
    refine ⟨hpath, ?_⟩
    rw [hlookup end_ hend, h.stops]

/-- One change keeps the pointers right. -/
theorem Pointed.attempt (h : s.Pointed ps) (hs : s.Sound) (c : ScopeChange) :
    (s.attempt c).Pointed (s.pointer c ++ ps) := by
  unfold Scope.attempt
  cases hchange : s.change c with
  | error e =>
      cases c with
      | declare c => exact h
      | connect lhs rhs =>
          have hnone : s.pointer (.connect lhs rhs) = [] := by
            simp only [pointer, show s.connect lhs rhs = .error e from hchange]
          rw [hnone]
          exact h
  | ok s' =>
      cases c with
      | declare c =>
          refine ⟨h.earlier, fun id => ?_⟩
          rw [canonical_declare s' c hchange]
          exact h.climbs id
      | connect lhs rhs =>
          rcases canonical_connect hs s' lhs rhs hchange with ⟨i, j, hpair, hcanonical⟩
          have hpointer : s.pointer (.connect lhs rhs)
              = if s.canonical i = s.canonical j then []
                else [(max (s.canonical i) (s.canonical j),
                  min (s.canonical i) (s.canonical j))] := by
            simp only [pointer, show s.connect lhs rhs = .ok s' from hchange, hpair]
          rw [hpointer]
          by_cases heq : s.canonical i = s.canonical j
          · -- The names were on one wire already.
            rw [if_pos heq]
            refine ⟨h.earlier, fun id => ?_⟩
            have hsame : s'.canonical id = s.canonical id := by
              rw [hcanonical, heq, max_self, min_self]
              split
              · rename_i hid
                exact hid.symm
              · rfl
            rw [hsame]
            exact h.climbs id
          · -- The later root gets a pointer to the earlier one. Neither had one.
            rw [if_neg heq]
            have hlt : min (s.canonical i) (s.canonical j) < max (s.canonical i) (s.canonical j) :=
              min_lt_max.mpr heq
            have hroots : ∀ id, id = s.canonical i ∨ id = s.canonical j →
                ps.lookup id = none := by
              rintro id (rfl | rfl)
              · exact h.stops _ (canonical_canonical hs i)
              · exact h.stops _ (canonical_canonical hs j)
            have hmax : max (s.canonical i) (s.canonical j) = s.canonical i ∨
                max (s.canonical i) (s.canonical j) = s.canonical j :=
              (le_total _ _).symm.imp max_eq_left max_eq_right
            have hmin : min (s.canonical i) (s.canonical j) = s.canonical i ∨
                min (s.canonical i) (s.canonical j) = s.canonical j :=
              (le_total _ _).imp min_eq_left min_eq_right
            refine ⟨?_, fun id => ?_⟩
            · rw [List.singleton_append, List.forall_mem_cons]
              exact ⟨hlt, h.earlier⟩
            · rw [hcanonical]
              exact climbs_cons _ _ id _ (Nat.ne_of_lt hlt) (hroots _ hmax) (hroots _ hmin)
                (h.climbs id)

theorem Pointed.attemptAll (h : s.Pointed ps) (pairs : List (ChannelId × ChannelId))
    (hs : s.Wired pairs) (cs : List ScopeChange) :
    (s.attemptAll cs).Pointed (s.pointers ps cs) := by
  induction cs generalizing s ps pairs with
  | nil => exact h
  | cons c cs ih => exact ih (h.attempt hs.sound c) _ (hs.attempt c)

end Pointers

section Rearranging

variable {s t : Scope}

/-- Both names of an alias are declared, with one width. -/
def Connectable (s : Scope) (a : String × String) : Prop :=
  ∃ i j, s.pair? a = some (i, j) ∧
    (s.channel? i).map Channel.width = (s.channel? j).map Channel.width

/-- Names are looked up among the declarations. -/
theorem pair?_congr (h : s.infos = t.infos) (a : String × String) : s.pair? a = t.pair? a := by
  have hlookup : ∀ (u : Scope) name,
      u.channels.findIdx? (·.name = name) = u.infos.findIdx? (·.name = name) := by
    intro u name
    unfold infos
    rw [List.findIdx?_map]
    rfl
  unfold pair? lookup
  rw [hlookup s, hlookup s, hlookup t, hlookup t, h]

/-- So do widths. -/
theorem width_congr (h : s.infos = t.infos) (id : ChannelId) :
    (s.channel? id).map Channel.width = (t.channel? id).map Channel.width := by
  have hinfo : ∀ u : Scope, (u.channel? id).map Channel.width
      = (u.info? id).map fun c => c.type.width := by
    intro u
    rw [info?_eq, Option.map_map]
    rfl
  rw [hinfo s, hinfo t]
  unfold info?
  rw [h]

/-- Whether an alias succeeds depends on declarations alone, for a root has the
    width of every channel on its wire. -/
theorem connect_succeeds_iff (hs : s.Sound) (a : String × String) :
    (∃ s', s.connect a.1 a.2 = .ok s') ↔ s.Connectable a := by
  constructor
  · rintro ⟨s', h⟩
    rcases canonical_connect hs s' a.1 a.2 h with ⟨i, j, hpair, hcanonical⟩
    rcases sound_connect s s' hs a.1 a.2 h with ⟨hs', hinfos⟩
    refine ⟨i, j, hpair, ?_⟩
    -- Afterwards both are on one wire, and widths are as they were.
    have hsame : s'.canonical i = s'.canonical j := by
      rw [hcanonical, hcanonical]
      rcases le_total (s.canonical i) (s.canonical j) with hle | hle
      · rw [max_eq_right hle, min_eq_left hle, if_pos rfl]
        split
        · rfl
        · rfl
      · rw [max_eq_left hle, min_eq_right hle, if_pos rfl]
        split
        · rfl
        · rfl
    rw [← width_congr hinfos i, ← width_congr hinfos j, ← width_canonical hs' i, hsame,
      width_canonical hs' j]
  · rintro ⟨i, j, hpair, hwidth⟩
    rcases (pair?_eq_some_iff a i j).mp hpair with ⟨hi, hj⟩
    have hresolve : ∀ name id, s.lookup name = .ok id → s.resolve name = .ok (s.canonical id) := by
      intro name id h
      exact except_bind_ok_iff.mpr ⟨id, h, rfl⟩
    rcases resolve_ok s hs a.1 _ (hresolve _ _ hi) with ⟨cl, hcl, _⟩
    rcases resolve_ok s hs a.2 _ (hresolve _ _ hj) with ⟨cr, hcr, _⟩
    -- The roots have the widths of the named channels.
    have hroots : cl.width = cr.width := by
      rw [← width_canonical hs i, ← width_canonical hs j, hcl, hcr, Option.map_some,
        Option.map_some, Option.some.injEq] at hwidth
      exact hwidth
    rw [connect_eq s a.1 a.2 _ _ cl cr (hresolve _ _ hi) (hresolve _ _ hj) hcl hcr]
    split
    · exact ⟨s, rfl⟩
    · rw [if_neg (not_not.mpr hroots)]
      exact ⟨_, rfl⟩

/-- What aliases leave that all succeed: the declarations are the same, and every
    pair is connected. -/
theorem connectAll_ok (s t : Scope) (pairs : List (ChannelId × ChannelId)) (h : s.Wired pairs)
    (aliases : List (String × String)) (hok : s.connectAll aliases = .ok t) :
    t.infos = s.infos ∧ (∀ a ∈ aliases, s.Connectable a) ∧
      t.Wired ((aliases.filterMap s.pair?).reverse ++ pairs) := by
  induction aliases generalizing s pairs with
  | nil =>
      cases hok
      exact ⟨rfl, fun a ha => absurd ha List.not_mem_nil, h⟩
  | cons a aliases ih =>
      rcases except_bind_ok_iff.mp hok with ⟨s₁, hfirst, hrest⟩
      rcases h.connect s₁ a.1 a.2 hfirst with ⟨i, j, hpair, hwired⟩
      have hinfos := (sound_connect s s₁ h.sound a.1 a.2 hfirst).2
      rcases ih s₁ _ hwired hrest with ⟨hinfos', hall, hwired'⟩
      -- The rest finds the same declarations, and so the same pairs.
      have hpairs : s₁.pair? = s.pair? := funext fun b => pair?_congr hinfos b
      refine ⟨hinfos'.trans hinfos, ?_, ?_⟩
      · rw [List.forall_mem_cons]
        refine ⟨(connect_succeeds_iff h.sound a).mp ⟨s₁, hfirst⟩, fun b hb => ?_⟩
        rcases hall b hb with ⟨i', j', hpair', hwidth⟩
        rw [hpairs] at hpair'
        rw [width_congr hinfos, width_congr hinfos] at hwidth
        exact ⟨i', j', hpair', hwidth⟩
      · rw [hpairs] at hwired'
        rw [List.filterMap_cons_some hpair, List.reverse_cons, List.append_assoc]
        exact hwired'

/-- Aliases all succeed if and only if each of them could be the only one. -/
theorem connectAll_succeeds_iff (hs : s.Sound) (aliases : List (String × String)) :
    (∃ t, s.connectAll aliases = .ok t) ↔ ∀ a ∈ aliases, s.Connectable a := by
  induction aliases generalizing s with
  | nil => exact ⟨fun _ a ha => absurd ha List.not_mem_nil, fun _ => ⟨s, rfl⟩⟩
  | cons a aliases ih =>
      -- The first alias leaves the declarations alone, on which the others depend.
      have hlater : ∀ s₁, s.connect a.1 a.2 = .ok s₁ →
          ((∃ t, s₁.connectAll aliases = .ok t) ↔ ∀ b ∈ aliases, s.Connectable b) := by
        intro s₁ h₁
        rcases sound_connect s s₁ hs a.1 a.2 h₁ with ⟨hs₁, hinfos⟩
        rw [ih hs₁]
        refine forall₂_congr fun b _ => exists₂_congr fun i j => ?_
        rw [pair?_congr hinfos, width_congr hinfos, width_congr hinfos]
      rw [List.forall_mem_cons, ← connect_succeeds_iff hs]
      constructor
      · rintro ⟨t, ht⟩
        rcases except_bind_ok_iff.mp ht with ⟨s₁, h₁, hrest⟩
        exact ⟨⟨s₁, h₁⟩, (hlater s₁ h₁).mp ⟨t, hrest⟩⟩
      · rintro ⟨⟨s₁, h₁⟩, hall⟩
        rcases (hlater s₁ h₁).mpr hall with ⟨t, hrest⟩
        exact ⟨t, except_bind_ok_iff.mpr ⟨s₁, h₁, hrest⟩⟩

/-- An alias with its sides exchanged is as good as before. -/
theorem connectable_swap (s : Scope) (a : String × String) :
    s.Connectable a.swap ↔ s.Connectable a := by
  unfold Connectable
  constructor
  · rintro ⟨i, j, hpair, hwidth⟩
    exact ⟨j, i, (pair?_swap a i j).mp hpair, hwidth.symm⟩
  · rintro ⟨i, j, hpair, hwidth⟩
    exact ⟨j, i, (pair?_swap a j i).mpr hpair, hwidth.symm⟩

/-- Every alias of a rearranged list is one of the other list, or was one before
    its sides were exchanged. -/
theorem mem_of_rearranged (aliases others : List (String × String))
    (h : Rearranged aliases others) :
    (∀ a ∈ aliases, a ∈ others ∨ a.swap ∈ others) ∧
      ∀ b ∈ others, b ∈ aliases ∨ b.swap ∈ aliases := by
  rcases h with ⟨turned, hturned, hperm⟩
  refine ⟨fun a ha => ?_, fun b hb => ?_⟩
  · rcases (List.forall₂_iff_get.mp hturned) with ⟨hlen, hget⟩
    rcases List.mem_iff_get.mp ha with ⟨n, rfl⟩
    have hmem : turned.get ⟨n, hlen ▸ n.isLt⟩ ∈ others := hperm.subset (List.get_mem _ _)
    rcases hget n n.isLt (hlen ▸ n.isLt) with heq | heq
    · exact Or.inl (heq ▸ hmem)
    · exact Or.inr (heq ▸ hmem)
  · rcases (List.forall₂_iff_get.mp hturned) with ⟨hlen, hget⟩
    rcases List.mem_iff_get.mp (hperm.symm.subset hb) with ⟨n, rfl⟩
    have hmem : aliases.get ⟨n, hlen.symm ▸ n.isLt⟩ ∈ aliases := List.get_mem _ _
    rcases hget n (hlen.symm ▸ n.isLt) n.isLt with heq | heq
    · exact Or.inl (by rw [Fin.eta] at heq; rw [heq]; exact hmem)
    · exact Or.inr (by rw [Fin.eta] at heq; rw [heq, Prod.swap_swap]; exact hmem)

/-- The same pairs are connected by a rearranged list. -/
theorem sameWire_rearranged (s : Scope) (pairs : List (ChannelId × ChannelId))
    (aliases others : List (String × String))
    (h : ∀ a ∈ aliases, a ∈ others ∨ a.swap ∈ others) (x y : ChannelId)
    (hxy : SameWire ((aliases.filterMap s.pair?).reverse ++ pairs) x y) :
    SameWire ((others.filterMap s.pair?).reverse ++ pairs) x y := by
  refine sameWire_mono (fun p hp => ?_) hxy
  rcases List.mem_append.mp hp with hp | hp
  · rcases List.mem_filterMap.mp (List.mem_reverse.mp hp) with ⟨a, ha, hpair⟩
    have hmem : ∀ b i j, b ∈ others → s.pair? b = some (i, j) →
        (i, j) ∈ (others.filterMap s.pair?).reverse ++ pairs := fun b i j hb hij =>
      List.mem_append_left _ (List.mem_reverse.mpr (List.mem_filterMap.mpr ⟨b, hb, hij⟩))
    rcases h a ha with ha | ha
    · exact .rel _ _ (hmem a p.1 p.2 ha hpair)
    · exact .symm _ _ (.rel _ _ (hmem _ p.2 p.1 ha ((pair?_swap a p.2 p.1).mpr hpair)))
  · exact .rel _ _ (List.mem_append_right _ hp)

/-- Two scopes with the same declarations and the same wires are the same. -/
theorem eq_of_wired {t u : Scope} {ps qs : List (ChannelId × ChannelId)} (ht : t.Wired ps)
    (hu : u.Wired qs) (hinfos : t.infos = u.infos)
    (hsame : ∀ x y, SameWire ps x y ↔ SameWire qs x y) :
    t = u := by
  -- A least element is determined by its set, and everything but the root is
  -- part of the declaration.
  have hcanonical : ∀ id, t.canonical id = u.canonical id := by
    intro id
    have hsets : {m | SameWire ps id m} = {m | SameWire qs id m} := Set.ext fun m => hsame id m
    have hleast := ht.isLeast id
    rw [hsets] at hleast
    exact hleast.unique (hu.isLeast id)
  refine scope_ext t u fun id => ?_
  have hinfo : t.info? id = u.info? id := congrArg (·[id]?) hinfos
  rw [info?_eq, info?_eq] at hinfo
  have hroot := hcanonical id
  rw [canonical_root, canonical_root] at hroot
  cases hc : t.channel? id with
  | none =>
      rw [hc] at hinfo
      cases hd : u.channel? id with
      | none => rfl
      | some d =>
          rw [hd] at hinfo
          cases hinfo
  | some c =>
      rw [hc] at hinfo hroot
      cases hd : u.channel? id with
      | none =>
          rw [hd] at hinfo
          cases hinfo
      | some d =>
          rcases c with ⟨name, type, kind, root⟩
          rcases d with ⟨name', type', kind', root'⟩
          rw [hd] at hinfo hroot
          simp only [Option.map_some, Option.some.injEq, NewChannel.mk.injEq] at hinfo
          have hroot : root = root' := hroot
          rw [hinfo.1, hinfo.2.1, hinfo.2.2, hroot]

/-- Rearranged aliases fail together, and if they succeed they leave the same
    scope. -/
theorem connectAll_rearranged (pairs : List (ChannelId × ChannelId)) (hs : s.Wired pairs)
    (aliases others : List (String × String)) (h : Rearranged aliases others) :
    (s.connectAll aliases).toOption = (s.connectAll others).toOption := by
  rcases mem_of_rearranged aliases others h with ⟨hleft, hright⟩
  have hall : ∀ as bs : List (String × String), (∀ b ∈ bs, b ∈ as ∨ b.swap ∈ as) →
      (∀ a ∈ as, s.Connectable a) → ∀ b ∈ bs, s.Connectable b := by
    intro as bs hmem has b hb
    rcases hmem b hb with hb | hb
    · exact has b hb
    · exact (connectable_swap s b).mp (has _ hb)
  have hiff : (∃ t, s.connectAll aliases = .ok t) ↔ ∃ t, s.connectAll others = .ok t := by
    rw [connectAll_succeeds_iff hs.sound, connectAll_succeeds_iff hs.sound]
    exact ⟨hall aliases others hright, hall others aliases hleft⟩
  cases hleftRun : s.connectAll aliases with
  | error e =>
      cases hrightRun : s.connectAll others with
      | error e' => rfl
      | ok u =>
          rcases hiff.mpr ⟨u, hrightRun⟩ with ⟨t, ht⟩
          rw [hleftRun] at ht
          cases ht
  | ok t =>
      rcases hiff.mp ⟨t, hleftRun⟩ with ⟨u, hu⟩
      rw [hu]
      rcases connectAll_ok s t pairs hs aliases hleftRun with ⟨hinfos, _, hwired⟩
      rcases connectAll_ok s u pairs hs others hu with ⟨hinfos', _, hwired'⟩
      refine congrArg some (eq_of_wired hwired hwired' (hinfos.trans hinfos'.symm) fun x y => ?_)
      exact ⟨sameWire_rearranged s pairs aliases others hleft x y,
        sameWire_rearranged s pairs others aliases hright x y⟩

end Rearranging

end Scope

open Scope in
/-- After any history of declarations and aliases, failed ones included: from
    every declared identity the pointers that aliases set lead to its root, each to
    an earlier declaration, so that following them ends; the root is the earliest
    channel that the successful aliases connect with it, and all of these are
    declared with one width; the roots are the identities that are their own root;
    a change that fails resolves no name differently; and further aliases may be
    put in any order and with their sides exchanged, and fail together or leave the
    same scope. -/
theorem aliases_resolve_to_earliest (history : List ScopeChange) :
    let s := empty.attemptAll history
    let pairs := empty.connections [] history
    let ps := empty.pointers [] history
    (∀ id < s.size, Climbs ps id (s.canonical id) ∧
      IsLeast {m | SameWire pairs id m} (s.canonical id)) ∧
    (∀ p ∈ ps, p.2 < p.1) ∧
    (∀ i j, i < s.size → SameWire pairs i j → j < s.size ∧
      (s.channel? i).map Channel.width = (s.channel? j).map Channel.width) ∧
    (∀ id < s.size, s.isCanonical id = true ↔ ∃ i < s.size, s.canonical i = id) ∧
    (∀ change e, s.change change = .error e →
      ∀ name, (s.attempt change).resolve name = s.resolve name) ∧
    (∀ aliases others, Rearranged aliases others →
      (s.connectAll aliases).toOption = (s.connectAll others).toOption) := by
  intro s pairs ps
  have hwired : s.Wired pairs := wired_empty.attemptAll history
  have hpointed : s.Pointed ps := pointed_empty.attemptAll [] wired_empty history
  refine ⟨fun id _ => ⟨hpointed.climbs id, hwired.isLeast id⟩, hpointed.earlier,
    fun i j hi hij => ?_, fun id hid => ?_, fun change e hfail name => ?_,
    fun aliases others h => connectAll_rearranged pairs hwired aliases others h⟩
  · have hwidth := hwired.width_eq i j hij
    refine ⟨?_, hwidth⟩
    rcases channel_of_lt s i hi with ⟨c, hc⟩
    rw [hc, Option.map_some] at hwidth
    rcases Option.map_eq_some_iff.mp hwidth.symm with ⟨d, hd, _⟩
    exact (List.getElem?_eq_some_iff.mp hd).1
  · unfold isCanonical
    rw [decide_eq_true_eq]
    constructor
    · exact fun hroot => ⟨id, hid, hroot⟩
    · rintro ⟨i, _, rfl⟩
      exact canonical_canonical hwired.sound i
  · unfold Scope.attempt
    rw [hfail]

/-- A history in which an alias of different widths and a second declaration of a
    name fail, and in which roots are handed on twice: `c` joins `b`, and both join
    `a`. The root of `c` is the earliest channel of its wire, where the pointers
    lead; `d` stays alone; and an alias that fails afterwards resolves no name
    differently. -/
theorem aliases_resolve_past_failures :
    let int (name : String) (w : Nat) : ScopeChange := .declare ⟨name, .int w, .internal⟩
    let history := [int "a" 8, int "b" 8, int "c" 8, .connect "c" "b", int "d" 4,
      .connect "a" "d", int "b" 8, .connect "b" "a"]
    let s := Scope.empty.attemptAll history
    let pairs := Scope.empty.connections [] history
    let ps := Scope.empty.pointers [] history
    s.ids.map s.canonical = [0, 0, 0, 3] ∧ ps = [(1, 0), (2, 1)] ∧ Climbs ps 2 0 ∧
      IsLeast {m | SameWire pairs 2 m} 0 ∧ IsLeast {m | SameWire pairs 3 m} 3 ∧
      ∀ name, (s.attempt (.connect "d" "c")).resolve name = s.resolve name := by
  intro int history s pairs ps
  rcases aliases_resolve_to_earliest history with ⟨hroots, _, _, _, hspared, _⟩
  have hc := hroots 2 (by decide +kernel)
  have hd := hroots 3 (by decide +kernel)
  have hcroot : s.canonical 2 = 0 := by decide +kernel
  have hdroot : s.canonical 3 = 3 := by decide +kernel
  rw [show (Scope.empty.attemptAll history).canonical 2 = 0 from hcroot] at hc
  rw [show (Scope.empty.attemptAll history).canonical 3 = 3 from hdroot] at hd
  refine ⟨by decide +kernel, by decide +kernel, hc.1, hc.2, hd.2, fun name => ?_⟩
  -- The wires of `d` and `c` carry different widths.
  have hfails : (s.change (.connect "d" "c")).isOk = false := by decide +kernel
  cases hchange : s.change (.connect "d" "c") with
  | error e => exact hspared (.connect "d" "c") e hchange name
  | ok t =>
      rw [hchange] at hfails
      cases hfails

end DataflowCircuit
