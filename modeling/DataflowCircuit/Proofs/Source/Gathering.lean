import DataflowCircuit.Proofs.Naming.Names
import DataflowCircuit.Proofs.Source.Arrays
import Mathlib.Data.List.Nodup

/-!
# Gathering Undoes Expansion of Distinct Names

Gathering knows nothing of the declarations that names come from. It finds the
base of a name by its brackets, emits an array where its base is first seen, and
takes the number of names with that base, wherever they stand, for its length.
Channels and arrays may be mixed in any way: paths with points, a channel and an
array with one path, a path that continues another.

This file says when that gives the declarations back, each in its place, with
the position of the first channel it stands for. Distinct names are enough, and
nothing less is: every position is given out once, and declarations that share
a name have the same first name.

## Main definitions

* `DeclaredName.first`: The first channel that a declared name stands for.

## Theorems

* `placed_eq_map`: Positions are those of first channels.
* `groupArrays_positions`: No position is given out twice.
* `first_eq_of_mem`: Declarations that share a name have the same first name.
* `gathering_undoes_expansion_iff`: Declarations are given back exactly if names
  are distinct.
-/

namespace DataflowCircuit

namespace Source

/-- The first channel that a declared name stands for. -/
def DeclaredName.first (d : DeclaredName) : String :=
  d.expand.headD d.path

/-- The first channel of a declared name comes first. -/
theorem expand_eq_cons (d : DeclaredName) (hd : d.Gatherable) :
    ∃ rest, d.expand = d.first :: rest := by
  rcases List.exists_cons_of_ne_nil (expand_ne_nil d hd) with ⟨name, rest, hcons⟩
  refine ⟨rest, ?_⟩
  rw [DeclaredName.first, hcons]
  rfl

/-- That of a channel is the channel. -/
theorem first_none (d : DeclaredName) (hd : d.length = none) : d.first = d.path := by
  rw [DeclaredName.first, expand_none d hd]
  rfl

/-- And that of an array its first member. -/
theorem first_some (d : DeclaredName) (n : Nat) (hd : d.length = some n) (hn : 0 < n) :
    d.first = s!"{d.path}[{0}]" := by
  cases n with
  | zero => exact absurd hn (Nat.lt_irrefl 0)
  | succ m =>
      rw [DeclaredName.first, expand_some d (m + 1) hd, List.range_succ_eq_map]
      rfl

section Positions

/-- If names are distinct, declared names are placed where their first channels
    stand. -/
theorem placed_eq_map (pre post : List DeclaredName) (hpost : ∀ d ∈ post, d.Gatherable)
    (hnodup : (expandNames (pre ++ post)).Nodup) :
    placed (expandNames pre).length post
      = post.map fun d => (d.text, (expandNames (pre ++ post)).idxOf d.first) := by
  induction post generalizing pre with
  | nil => rfl
  | cons d post ih =>
      have hmove : pre ++ d :: post = (pre ++ [d]) ++ post := by
        rw [List.append_assoc, List.singleton_append]
      have hlength : (expandNames pre).length + d.expand.length
          = (expandNames (pre ++ [d])).length := by
        simp [expandNames]
      have htail := ih (pre ++ [d]) (fun e he => hpost e (List.mem_cons_of_mem d he))
        (hmove ▸ hnodup)
      -- The first channel of `d` stands right behind the channels of `pre`.
      have hhead : (expandNames (pre ++ d :: post)).idxOf d.first = (expandNames pre).length := by
        rcases expand_eq_cons d (hpost d List.mem_cons_self) with ⟨rest, hexpand⟩
        have hnames : expandNames (pre ++ d :: post)
            = expandNames pre ++ d.first :: (rest ++ expandNames post) := by
          simp [expandNames, hexpand]
        rw [hnames] at hnodup ⊢
        have hnew : d.first ∉ expandNames pre := fun hmem =>
          (List.nodup_append.mp hnodup).2.2 _ hmem _ List.mem_cons_self rfl
        rw [List.idxOf_append_of_notMem hnew, List.idxOf_cons_self, Nat.add_zero]
      rw [List.map_cons, placed, hlength, htail, hhead, hmove]

/-- What is gathered at a position keeps it. -/
theorem groupAt_position (bases : List (Option String)) (name : String) (position : Nat)
    (group : String × Nat) (h : groupAt bases name position = some group) :
    group.2 = position := by
  unfold groupAt at h
  cases hbase : arrayBase? name with
  | none =>
      simp only [hbase, Option.some.injEq] at h
      rw [← h]
  | some base =>
      simp only [hbase, Option.ite_none_right_eq_some, Option.some.injEq] at h
      rw [← h.2]

/-- No position is given out twice, whatever the names. -/
theorem groupArrays_positions (names : List String) :
    ((groupArrays names).map Prod.snd).Nodup := by
  -- Positions of a list are distinct, and gathering only leaves some of them out.
  have horder : names.zipIdx.Pairwise fun a b => a.2 ≠ b.2 := by
    rw [← List.pairwise_map (f := Prod.snd), List.zipIdx_map_snd]
    exact List.nodup_range'
  unfold groupArrays
  rw [List.Nodup, List.pairwise_map, List.pairwise_filterMap]
  refine horder.imp ?_
  rintro ⟨name, i⟩ ⟨name', j⟩ hne group hgroup group' hgroup'
  rw [groupAt_position _ _ _ group hgroup, groupAt_position _ _ _ group' hgroup']
  exact hne

end Positions

section Sharing

/-- What the base of a name says about the declaration it comes from. -/
theorem arrayBase?_of_mem (d : DeclaredName) (hd : d.Gatherable) (name : String)
    (hname : name ∈ d.expand) : arrayBase? name = d.length.map fun _ => d.path := by
  cases hlength : d.length with
  | none =>
      rw [expand_none d hlength, List.mem_singleton] at hname
      rw [hname, arrayBase?_path d.path hd.path]
      rfl
  | some n =>
      rcases (mem_expand_some d n hlength name).mp hname with ⟨i, _, rfl⟩
      exact arrayBase?_indexed d.path i hd.path

/-- Declarations that share a name have the same first name. -/
theorem first_eq_of_mem (d e : DeclaredName) (hd : d.Gatherable) (he : e.Gatherable)
    (name : String) (hname : name ∈ d.expand) (hname' : name ∈ e.expand) :
    d.first = e.first := by
  -- The name they share has one base, so both are channels or both arrays of one path.
  have hbase := (arrayBase?_of_mem d hd name hname).symm.trans (arrayBase?_of_mem e he name hname')
  cases hlength : d.length with
  | none =>
      cases hlength' : e.length with
      | none =>
          rw [expand_none d hlength, List.mem_singleton] at hname
          rw [expand_none e hlength', List.mem_singleton] at hname'
          rw [first_none d hlength, first_none e hlength', ← hname, ← hname']
      | some m =>
          rw [hlength, hlength'] at hbase
          cases hbase
  | some n =>
      cases hlength' : e.length with
      | none =>
          rw [hlength, hlength'] at hbase
          cases hbase
      | some m =>
          rw [hlength, hlength', Option.map_some, Option.map_some, Option.some.injEq] at hbase
          rw [first_some d n hlength (hd.length n hlength),
            first_some e m hlength' (he.length m hlength'), hbase]

/-- Members with one name are one member. -/
theorem indexed_inj (path : String) (i j : Nat) (h : s!"{path}[{i}]" = s!"{path}[{j}]") :
    i = j := by
  have hlist := congrArg String.toList h
  rw [toList_indexed, toList_indexed, List.append_cancel_left_eq, List.cons.injEq,
    List.append_cancel_right_eq] at hlist
  exact toDigits_inj i j hlist.2

/-- A declared name stands for each of its channels once. -/
theorem nodup_expand (d : DeclaredName) : d.expand.Nodup := by
  cases hlength : d.length with
  | none =>
      rw [expand_none d hlength]
      exact List.nodup_singleton _
  | some n =>
      rw [expand_some d n hlength]
      exact List.nodup_range.map fun i j hij => indexed_inj d.path i j hij

/-- Names are distinct if the first names of declarations are. -/
theorem nodup_expandNames (ds : List DeclaredName) (hds : ∀ d ∈ ds, d.Gatherable)
    (hfirst : (ds.map DeclaredName.first).Nodup) : (expandNames ds).Nodup := by
  rw [List.Nodup, List.pairwise_map] at hfirst
  -- A name that occurs twice belongs to one declaration or to two, which then share it.
  refine List.nodup_flatMap.mpr ⟨fun d _ => nodup_expand d, hfirst.imp_of_mem ?_⟩
  intro d e hd he hne name hname hname'
  exact hne (first_eq_of_mem d e (hds d hd) (hds e he) name hname hname')

end Sharing

/-- Gathering undoes expansion. Let declarations have paths without brackets and
    lengths of at least one, if any. The names they stand for, one after
    another, are gathered to the declarations in their order, as they are
    written, each with the position of the first name it stands for, exactly if
    no name occurs twice. -/
theorem gathering_undoes_expansion_iff (ds : List DeclaredName)
    (hds : ∀ d ∈ ds, d.Gatherable) :
    groupArrays (expandNames ds)
        = ds.map (fun d => (d.text, (expandNames ds).idxOf d.first))
      ↔ (expandNames ds).Nodup := by
  constructor
  · intro h
    -- Equal first names would have equal positions.
    have hpositions := groupArrays_positions (expandNames ds)
    rw [h, List.map_map] at hpositions
    refine nodup_expandNames ds hds (List.Nodup.of_map (expandNames ds).idxOf ?_)
    rw [List.map_map]
    exact hpositions
  · intro hnodup
    rw [groupArrays_expandNames ds hds hnodup]
    exact placed_eq_map [] ds hds hnodup

/-- A channel and an array with one path, a path that continues another, and the
    same path behind a point are kept apart. -/
theorem gathering_undoes_mixed_expansion :
    let ds : List DeclaredName :=
      [⟨"u", none⟩, ⟨"u", some 2⟩, ⟨"a.u", some 1⟩, ⟨"uv", some 11⟩, ⟨"a.u", none⟩]
    (∀ d ∈ ds, d.Gatherable) ∧ (expandNames ds).Nodup ∧
      groupArrays (expandNames ds)
        = [("u", 0), ("u[2]", 1), ("a.u[1]", 3), ("uv[11]", 4), ("a.u", 15)] := by
  intro ds
  have hpath : ∀ d ∈ ds, Bracketless d.path.toList := by decide +kernel
  have hlength : ∀ d ∈ ds, ∀ n ∈ d.length, 0 < n := by simp [ds]
  have hds : ∀ d ∈ ds, d.Gatherable := fun d hd => ⟨hpath d hd, hlength d hd⟩
  have hnodup : (expandNames ds).Nodup := by decide +kernel
  refine ⟨hds, hnodup, ?_⟩
  rw [(gathering_undoes_expansion_iff ds hds).mpr hnodup]
  decide +kernel

end Source

end DataflowCircuit
