import DataflowCircuit.Process.Printer
import DataflowCircuit.Proofs.Basic.Steps
import Mathlib.Data.List.Nodup

/-!
# Scopes of Finished Processes

Declaring and connecting keep one invariant, `Scope.Sound`: names are declared
once, a root stands no later than the channels of its wire, is its own root,
and has their width. Declarations fix everything about a channel but its root,
and connecting changes nothing but roots.

A process is written with one alias for each channel that is not a root. Put
on the declared channels in order, these aliases rebuild the roots one
identity after the other: when the alias of an identity is reached, the
identity is still a wire of its own and its root already is one. `upTo` is the
scope in between, in which the identities below a bound have their roots.

## Main definitions

* `Scope.infos`, `Scope.info?`: What was declared of each channel.
* `Scope.Sound`: The invariant of a scope.
* `Scope.Fresh`: No channels are connected.
* `Scope.IsRoot`: A declared root.
* `Scope.upTo`: The roots below a bound.

## Theorems

* `declareAll_ok`: What declarations leave behind.
* `sound_connectAll`: Connecting keeps the invariant.
* `resolve_nameOf`: The name of a root resolves to it.
* `connectAll_aliases`: The written aliases rebuild a scope.
-/

namespace DataflowCircuit

namespace Scope

/-- What was declared of each channel. -/
def infos (s : Scope) : List NewChannel :=
  s.channels.map fun c => ⟨c.name, c.type, c.kind⟩

/-- What was declared of an identity. -/
def info? (s : Scope) (id : ChannelId) : Option NewChannel :=
  s.infos[id]?

/-- The invariant of a scope. -/
structure Sound (s : Scope) : Prop where
  nodup : s.names.Nodup
  root_le : ∀ id c, s.channel? id = some c → c.root ≤ id
  root_root : ∀ id c, s.channel? id = some c →
    ∃ d, s.channel? c.root = some d ∧ d.root = c.root ∧ d.width = c.width

/-- No channels are connected. -/
def Fresh (s : Scope) : Prop :=
  ∀ id c, s.channel? id = some c → c.root = id

/-- A declared identity that is the root of its wire. -/
def IsRoot (s : Scope) (id : ChannelId) : Prop :=
  id < s.size ∧ s.canonical id = id

/-- Names are a part of what was declared. -/
theorem names_eq_infos (s : Scope) : s.names = s.infos.map NewChannel.name := by
  unfold names infos
  rw [List.map_map]
  rfl

/-- What was declared of an identity is its channel without the root. -/
theorem info?_eq (s : Scope) (id : ChannelId) :
    s.info? id = (s.channel? id).map fun c => ⟨c.name, c.type, c.kind⟩ :=
  List.getElem?_map

/-- The name of an identity is that of its declaration. -/
theorem nameOf_info (s : Scope) (id : ChannelId) :
    s.nameOf id = (s.info? id).elim "<unknown>" NewChannel.name := by
  rw [info?_eq]
  unfold nameOf
  cases s.channel? id with
  | none => rfl
  | some c => rfl

/-- A declared identity has a channel. -/
theorem channel_of_lt (s : Scope) (id : ChannelId) (h : id < s.size) :
    ∃ c, s.channel? id = some c :=
  ⟨_, List.getElem?_eq_getElem h⟩

/-- An identity is named like its channel. -/
theorem nameOf_eq (s : Scope) (id : ChannelId) (c : Channel) (hc : s.channel? id = some c) :
    s.nameOf id = c.name := by
  unfold nameOf
  rw [hc]

/-- The root of an identity is written in its channel. -/
theorem canonical_eq (s : Scope) (id : ChannelId) (c : Channel) (hc : s.channel? id = some c) :
    s.canonical id = c.root := by
  unfold canonical
  rw [hc]

/-- With every channel on its own wire there is nothing to check but the names.
    -/
theorem sound_of_fresh (s : Scope) (hnodup : s.names.Nodup) (hfresh : s.Fresh) : s.Sound where
  nodup := hnodup
  root_le := fun id c hc => Nat.le_of_eq (hfresh id c hc)
  root_root := by
    intro id c hc
    rw [hfresh id c hc]
    exact ⟨c, hc, hfresh id c hc, rfl⟩

section Declaring

/-- A declaration that succeeds adds a channel of a good width and a new name.
    -/
theorem declare_ok (s s' : Scope) (name : String) (type : ChannelType) (kind : ChannelKind)
    (h : s.declare name type kind = .ok s') :
    isChannelWidth type.width = true ∧ name ∉ s.names ∧
      s' = ⟨s.channels ++ [{ name, type, kind, root := s.size }]⟩ := by
  unfold declare at h
  split at h
  · cases h
  · rename_i hwidth
    split at h
    · cases h
    · rename_i hname
      cases h
      refine ⟨by simpa using hwidth, ?_, rfl⟩
      intro hmem
      rcases List.mem_map.mp hmem with ⟨c, hc, hcname⟩
      exact hname (List.any_eq_true.mpr ⟨c, hc, decide_eq_true hcname⟩)

/-- It comes with a wire of its own. -/
theorem fresh_declare (s : Scope) (name : String) (type : ChannelType) (kind : ChannelKind)
    (hfresh : s.Fresh) : Fresh ⟨s.channels ++ [{ name, type, kind, root := s.size }]⟩ := by
  intro id c hc
  change (s.channels ++ [(⟨name, type, kind, s.size⟩ : Channel)])[id]? = some c at hc
  -- Every identity but the last is one of the old ones.
  by_cases hlt : id < s.channels.length
  · rw [List.getElem?_append_left hlt] at hc
    exact hfresh id c hc
  · have hlen : s.channels.length ≤ id := Nat.le_of_not_lt hlt
    rw [List.getElem?_append_right hlen, List.getElem?_singleton] at hc
    split at hc
    · rename_i hzero
      cases hc
      change s.channels.length = id
      omega
    · cases hc

/-- Declarations leave the channels behind that were declared, in order, each
    under a name and on a wire of its own. -/
theorem declareAll_ok (s s' : Scope) (cs : List NewChannel) (h : s.declareAll cs = .ok s')
    (hnodup : s.names.Nodup) (hfresh : s.Fresh) :
    s'.infos = s.infos ++ cs ∧ s'.names.Nodup ∧ s'.Fresh ∧
      ∀ c ∈ cs, isChannelWidth c.type.width = true := by
  induction cs generalizing s with
  | nil =>
      cases h
      exact ⟨(List.append_nil _).symm, hnodup, hfresh, fun c hc => absurd hc List.not_mem_nil⟩
  | cons c cs ih =>
      rcases except_bind_ok_iff.mp h with ⟨s₁, hs₁, h₁⟩
      rcases declare_ok s s₁ c.name c.type c.kind hs₁ with ⟨hwidth, hname, rfl⟩
      -- The name was checked against those declared before.
      have hnodup' : (⟨s.channels ++ [⟨c.name, c.type, c.kind, s.size⟩]⟩ : Scope).names.Nodup := by
        unfold names
        rw [List.map_append, List.map_singleton]
        exact List.nodup_append.mpr ⟨hnodup, List.nodup_singleton _, by
          intro a ha b hb hab
          rw [hab, List.mem_singleton.mp hb] at ha
          exact hname ha⟩
      rcases ih _ h₁ hnodup' (fresh_declare s c.name c.type c.kind hfresh) with
        ⟨hinfos, hnodup'', hfresh'', hwidths⟩
      refine ⟨?_, hnodup'', hfresh'', ?_⟩
      · rw [hinfos]
        simp [infos]
      · intro d hd
        rcases List.mem_cons.mp hd with rfl | hd
        · exact hwidth
        · exact hwidths d hd

end Declaring

section Connecting

/-- Joining moves the channels of one wire and no others. -/
theorem join_channel? (s : Scope) (root child id : ChannelId) :
    (s.join root child).channel? id
      = (s.channel? id).map fun c => if c.root = child then { c with root } else c :=
  List.getElem?_map

/-- Joining wires changes roots only. -/
theorem infos_join (s : Scope) (root child : ChannelId) : (s.join root child).infos = s.infos := by
  unfold infos join
  rw [List.map_map]
  refine List.map_congr_left fun c _ => ?_
  rw [Function.comp_apply]
  split
  · rfl
  · rfl

/-- Joining two roots of one width keeps the invariant. -/
theorem sound_join (s : Scope) (hs : s.Sound) (root child : ChannelId) (r c : Channel)
    (hlt : root < child) (hr : s.channel? root = some r) (hroot : r.root = root)
    (hc : s.channel? child = some c) (hwidth : r.width = c.width) :
    (s.join root child).Sound where
  nodup := by
    rw [names_eq_infos, infos_join, ← names_eq_infos]
    exact hs.nodup
  root_le := by
    intro id d hd
    rw [join_channel?] at hd
    rcases Option.map_eq_some_iff.mp hd with ⟨d', hd', rfl⟩
    have hle := hs.root_le id d' hd'
    split
    · rename_i hmoved
      -- A channel that was moved gets an earlier root than it had.
      rw [hmoved] at hle
      exact Nat.le_trans (Nat.le_of_lt hlt) hle
    · exact hle
  root_root := by
    intro id d hd
    rw [join_channel?] at hd
    rcases Option.map_eq_some_iff.mp hd with ⟨d', hd', rfl⟩
    rcases hs.root_root id d' hd' with ⟨e, he, heroot, hewidth⟩
    -- The root that stays is not on the wire that is handed over.
    have hjoined : (s.join root child).channel? root = some r := by
      rw [join_channel?, hr, Option.map_some, if_neg]
      rw [hroot]
      exact Nat.ne_of_lt hlt
    split
    · -- The channel was on the wire of `child`.
      rename_i hmoved
      rw [hmoved, hc] at he
      cases he
      exact ⟨r, hjoined, hroot, by rw [hwidth, hewidth]; rfl⟩
    · rename_i hkept
      refine ⟨e, ?_, heroot, hewidth⟩
      rw [join_channel?, he, Option.map_some, if_neg]
      rw [heroot]
      exact hkept

/-- A name resolves to a root. -/
theorem resolve_ok (s : Scope) (hs : s.Sound) (name : String) (id : ChannelId)
    (h : s.resolve name = .ok id) :
    ∃ c, s.channel? id = some c ∧ c.root = id := by
  rcases except_bind_ok_iff.mp h with ⟨id', hid', h₁⟩
  have hcanonical := except_pure_ok_iff.mp h₁
  unfold lookup at hid'
  split at hid'
  · rename_i id'' hfind
    cases hid'
    rcases List.findIdx?_eq_some_iff_getElem.mp hfind with ⟨hlt, _⟩
    have hc : s.channel? id' = some (s.channels[id']) := List.getElem?_eq_getElem hlt
    -- A name is declared at an identity, and what it resolves to is that identity's root.
    rcases hs.root_root id' _ hc with ⟨d, hd, hdroot, _⟩
    rw [← hcanonical, canonical_eq s id' _ hc]
    exact ⟨d, hd, hdroot⟩
  · cases hid'

/-- Connecting two resolved names. -/
theorem connect_eq (s : Scope) (lhs rhs : String) (l r : ChannelId) (cl cr : Channel)
    (hl : s.resolve lhs = .ok l) (hr : s.resolve rhs = .ok r) (hcl : s.channel? l = some cl)
    (hcr : s.channel? r = some cr) :
    s.connect lhs rhs = if l = r then .ok s
      else if cl.width ≠ cr.width then
        .error (.inconsistentGraph (.widthsDiffer lhs cl.width rhs cr.width))
      else .ok (s.join (min l r) (max l r)) := by
  unfold connect
  rw [hl, hr]
  change (if l = r then pure s else _) = _
  rw [hcl, hcr]
  rfl

/-- Connecting keeps the invariant and what was declared. -/
theorem sound_connect (s s' : Scope) (hs : s.Sound) (lhs rhs : String)
    (h : s.connect lhs rhs = .ok s') : s'.Sound ∧ s'.infos = s.infos := by
  rcases except_bind_ok_iff.mp h with ⟨l, hl, h₁⟩
  rcases except_bind_ok_iff.mp h₁ with ⟨r, hr, h₂⟩
  rcases resolve_ok s hs lhs l hl with ⟨cl, hcl, hclroot⟩
  rcases resolve_ok s hs rhs r hr with ⟨cr, hcr, hcrroot⟩
  rw [connect_eq s lhs rhs l r cl cr hl hr hcl hcr] at h
  by_cases heq : l = r
  · rw [if_pos heq] at h
    cases h
    exact ⟨hs, rfl⟩
  · rw [if_neg heq] at h
    by_cases hwidth : cl.width = cr.width
    · rw [if_neg (not_not.mpr hwidth)] at h
      cases h
      refine ⟨?_, infos_join s _ _⟩
      -- The earlier root stays, on whichever side it was written.
      rcases Nat.lt_or_gt_of_ne heq with hlt | hgt
      · rw [Nat.min_eq_left (Nat.le_of_lt hlt), Nat.max_eq_right (Nat.le_of_lt hlt)]
        exact sound_join s hs l r cl cr hlt hcl hclroot hcr hwidth
      · rw [Nat.min_eq_right (Nat.le_of_lt hgt), Nat.max_eq_left (Nat.le_of_lt hgt)]
        exact sound_join s hs r l cr cl hgt hcr hcrroot hcl hwidth.symm
    · rw [if_pos hwidth] at h
      cases h

/-- So do aliases in order. -/
theorem sound_connectAll (s s' : Scope) (hs : s.Sound) (aliases : List (String × String))
    (h : s.connectAll aliases = .ok s') : s'.Sound ∧ s'.infos = s.infos := by
  induction aliases generalizing s with
  | nil =>
      cases h
      exact ⟨hs, rfl⟩
  | cons a aliases ih =>
      rcases except_bind_ok_iff.mp h with ⟨s₁, hs₁, h₁⟩
      rcases sound_connect s s₁ hs a.1 a.2 hs₁ with ⟨hsound, hinfos⟩
      rcases ih s₁ hsound h₁ with ⟨hsound', hinfos'⟩
      exact ⟨hsound', hinfos'.trans hinfos⟩

end Connecting

section Aliases

/-- A declared name denotes the identity it was declared with. -/
theorem lookup_name (s : Scope) (hnodup : s.names.Nodup) (id : ChannelId) (c : Channel)
    (hc : s.channel? id = some c) : s.lookup c.name = .ok id := by
  rcases List.getElem?_eq_some_iff.mp hc with ⟨hlt, hget⟩
  have hfind : s.channels.findIdx? (·.name = c.name) = some id := by
    refine List.findIdx?_eq_some_iff_getElem.mpr ⟨hlt, ?_, ?_⟩
    · rw [hget]
      exact decide_eq_true rfl
    · intro j hj hname
      -- An earlier channel of the same name would be a second declaration.
      have hjlt : j < s.channels.length := Nat.lt_trans hj hlt
      have hnames : s.names[j]? = s.names[id]? := by
        unfold names
        rw [List.getElem?_map, List.getElem?_map, List.getElem?_eq_getElem hjlt,
          List.getElem?_eq_getElem hlt, hget, Option.map_some, Option.map_some,
          of_decide_eq_true hname]
      have hbound : j < s.names.length := by
        unfold names
        rw [List.length_map]
        exact hjlt
      exact absurd ((List.getElem?_inj hbound hnodup).mp hnames) (Nat.ne_of_lt hj)
  unfold lookup
  rw [hfind]

/-- A declared name resolves to the root of its channel. -/
theorem resolve_name (s : Scope) (hnodup : s.names.Nodup) (id : ChannelId) (c : Channel)
    (hc : s.channel? id = some c) : s.resolve c.name = .ok c.root := by
  unfold resolve
  rw [lookup_name s hnodup id c hc, ← canonical_eq s id c hc]
  rfl

/-- The name of a root resolves to it. -/
theorem resolve_nameOf (s : Scope) (hs : s.Sound) (id : ChannelId) (hid : s.IsRoot id) :
    s.resolve (s.nameOf id) = .ok id := by
  rcases channel_of_lt s id hid.1 with ⟨c, hc⟩
  have hroot := hid.2
  rw [canonical_eq s id c hc] at hroot
  rw [nameOf_eq s id c hc, resolve_name s hs.nodup id c hc, hroot]

/-- The scope in which only the identities below `k` are connected. -/
def upTo (s : Scope) (k : Nat) : Scope :=
  ⟨s.channels.mapIdx fun id c => if id < k then c else { c with root := id }⟩

/-- The channels in between have their root below the bound and none above. -/
theorem upTo_channel? (s : Scope) (k id : Nat) :
    (s.upTo k).channel? id
      = (s.channel? id).map fun c => if id < k then c else { c with root := id } :=
  List.getElem?_mapIdx

/-- A scope is known by its channels. -/
theorem scope_ext (s t : Scope) (h : ∀ id, s.channel? id = t.channel? id) : s = t := by
  rcases s with ⟨cs⟩
  rcases t with ⟨ds⟩
  exact congrArg Scope.mk (List.ext_getElem? h)

/-- Nothing that was declared is lost in between. -/
theorem infos_upTo (s : Scope) (k : Nat) : (s.upTo k).infos = s.infos := by
  refine List.ext_getElem? fun id => ?_
  change (s.upTo k).info? id = s.info? id
  rw [info?_eq, info?_eq, upTo_channel?, Option.map_map]
  refine congrArg (Option.map · _) (funext fun c => ?_)
  rw [Function.comp_apply]
  split
  · rfl
  · rfl

/-- Nor does a name occur twice there. -/
theorem nodup_upTo (s : Scope) (hs : s.Sound) (k : Nat) : (s.upTo k).names.Nodup := by
  rw [names_eq_infos, infos_upTo, ← names_eq_infos]
  exact hs.nodup

/-- With no identity connected, only what was declared is left. -/
theorem upTo_zero (s s₀ : Scope) (hfresh : s₀.Fresh) (hinfos : s.infos = s₀.infos) :
    s.upTo 0 = s₀ := by
  refine scope_ext _ _ fun id => ?_
  have hinfo : s.info? id = s₀.info? id := congrArg (·[id]?) hinfos
  rw [info?_eq, info?_eq] at hinfo
  rw [upTo_channel?]
  -- Both scopes declare the same identities, and a fresh one is its own root.
  cases hc : s.channel? id with
  | none =>
      rw [hc] at hinfo
      cases hc₀ : s₀.channel? id with
      | none => rfl
      | some c₀ =>
          rw [hc₀] at hinfo
          cases hinfo
  | some c =>
      rw [hc] at hinfo
      cases hc₀ : s₀.channel? id with
      | none =>
          rw [hc₀] at hinfo
          cases hinfo
      | some c₀ =>
          have hroot := hfresh id c₀ hc₀
          rcases c with ⟨name, type, kind, root⟩
          rcases c₀ with ⟨name₀, type₀, kind₀, root₀⟩
          rw [hc₀] at hinfo
          simp only [Option.map_some, Option.some.injEq, NewChannel.mk.injEq] at hinfo
          rw [Option.map_some, if_neg (Nat.not_lt_zero id), hinfo.1, hinfo.2.1, hinfo.2.2,
            ← (show root₀ = id from hroot)]

/-- With all identities below the bound, the scope is the whole one. -/
theorem upTo_size (s : Scope) : s.upTo s.size = s := by
  refine scope_ext _ _ fun id => ?_
  rw [upTo_channel?]
  cases hc : s.channel? id with
  | none => rfl
  | some c =>
      have hlt : id < s.size := (List.getElem?_eq_some_iff.mp hc).1
      rw [Option.map_some, if_pos hlt]

/-- A root needs no alias. -/
theorem upTo_succ_root (s : Scope) (k : Nat) (c : Channel) (hc : s.channel? k = some c)
    (hroot : c.root = k) : s.upTo (k + 1) = s.upTo k := by
  refine scope_ext _ _ fun id => ?_
  rw [upTo_channel?, upTo_channel?]
  by_cases hid : id = k
  · rw [hid, hc, Option.map_some, Option.map_some, if_pos (Nat.lt_succ_self k),
      if_neg (Nat.lt_irrefl k), ← hroot]
  · refine congrArg (Option.map · _) (funext fun d => ?_)
    by_cases hlt : id < k
    · rw [if_pos hlt, if_pos (Nat.lt_succ_of_lt hlt)]
    · have hle : ¬ id < k + 1 := by
        intro hlt'
        exact hid (Nat.le_antisymm (Nat.le_of_lt_succ hlt') (Nat.le_of_not_lt hlt))
      rw [if_neg hlt, if_neg hle]

/-- The alias of an identity hands it to its root. -/
theorem connect_upTo (s : Scope) (hs : s.Sound) (k : Nat) (c : Channel)
    (hc : s.channel? k = some c) (hroot : c.root ≠ k) :
    (s.upTo k).connect (s.nameOf k) (s.nameOf c.root) = .ok (s.upTo (k + 1)) := by
  rcases hs.root_root k c hc with ⟨d, hd, hdroot, hdwidth⟩
  have hlt : c.root < k := Nat.lt_of_le_of_ne (hs.root_le k c hc) hroot
  -- In between, `k` is still on a wire of its own, and its root is settled.
  have hck : (s.upTo k).channel? k = some { c with root := k } := by
    rw [upTo_channel?, hc, Option.map_some, if_neg (Nat.lt_irrefl k)]
  have hdk : (s.upTo k).channel? c.root = some d := by
    rw [upTo_channel?, hd, Option.map_some, if_pos hlt]
  have hnodup := nodup_upTo s hs k
  have hresolve := resolve_name _ hnodup k _ hck
  have hresolve' := resolve_name _ hnodup c.root d hdk
  rw [hdroot] at hresolve'
  rw [nameOf_eq s k c hc, nameOf_eq s c.root d hd,
    connect_eq _ c.name d.name k c.root _ d hresolve hresolve' hck hdk, if_neg (Ne.symm hroot)]
  have hwidth : ¬ (Channel.width { c with root := k } ≠ d.width) := not_not.mpr hdwidth.symm
  rw [if_neg hwidth, Nat.min_eq_right (Nat.le_of_lt hlt), Nat.max_eq_left (Nat.le_of_lt hlt)]
  refine congrArg Except.ok (scope_ext _ _ fun id => ?_)
  rw [join_channel?, upTo_channel?, upTo_channel?, Option.map_map]
  -- Of the identities, only `k` itself is on the wire of `k`.
  cases he : s.channel? id with
  | none => rfl
  | some e =>
      have hle := hs.root_le id e he
      rw [Option.map_some, Option.map_some, Function.comp_apply]
      rcases Nat.lt_trichotomy id k with hid | hid | hid
      · rw [if_pos hid, if_pos (Nat.lt_succ_of_lt hid), if_neg]
        exact Nat.ne_of_lt (Nat.lt_of_le_of_lt hle hid)
      · rw [hid] at he ⊢
        rw [hc] at he
        cases he
        rw [if_neg (Nat.lt_irrefl k), if_pos (Nat.lt_succ_self k), if_pos rfl]
      · rw [if_neg (Nat.lt_asymm hid), if_neg (Nat.ne_of_gt hid),
          if_neg (Nat.not_lt_of_le hid)]

/-- The aliases of the identities below `k`. -/
def aliasesBelow (s : Scope) (k : Nat) : List (String × String) :=
  ((List.range k).filter (!s.isCanonical ·)).map fun id => (s.nameOf id, s.nameOf (s.canonical id))

/-- The aliases below a bound rebuild the roots below it. -/
theorem connectAll_aliasesBelow (s : Scope) (hs : s.Sound) (k : Nat) (hk : k ≤ s.size) :
    (s.upTo 0).connectAll (s.aliasesBelow k) = .ok (s.upTo k) := by
  induction k with
  | zero => rfl
  | succ k ih =>
      rcases channel_of_lt s k hk with ⟨c, hc⟩
      have hcanonical := canonical_eq s k c hc
      have hsplit : s.aliasesBelow (k + 1) = s.aliasesBelow k ++
          ([k].filter (!s.isCanonical ·)).map fun id =>
            (s.nameOf id, s.nameOf (s.canonical id)) := by
        unfold aliasesBelow
        rw [List.range_succ, List.filter_append, List.map_append]
      have hprevious := ih (Nat.le_of_succ_le hk)
      -- Identity `k` adds its alias if it is no root, and nothing otherwise.
      unfold connectAll at hprevious ⊢
      rw [hsplit, List.foldlM_append, hprevious]
      by_cases hroot : s.canonical k = k
      · have hnone : [k].filter (!s.isCanonical ·) = [] := by
          simp [isCanonical, hroot]
        rw [hnone, upTo_succ_root s k c hc (hcanonical ▸ hroot)]
        rfl
      · have hone : [k].filter (!s.isCanonical ·) = [k] := by
          simp [isCanonical, hroot]
        rw [hone]
        have hconnect := connect_upTo s hs k c hc (hcanonical ▸ hroot)
        rw [← hcanonical] at hconnect
        change ((s.upTo k).connect (s.nameOf k) (s.nameOf (s.canonical k)) >>= pure) = _
        rw [hconnect]
        rfl

/-- The written aliases rebuild a scope from what was declared. -/
theorem connectAll_aliases (s s₀ : Scope) (hs : s.Sound) (hfresh : s₀.Fresh)
    (hinfos : s.infos = s₀.infos) : s₀.connectAll (s.aliasesBelow s.size) = .ok s := by
  rw [← upTo_zero s s₀ hfresh hinfos, connectAll_aliasesBelow s hs s.size (Nat.le_refl _),
    upTo_size]

end Aliases

end Scope

end DataflowCircuit
