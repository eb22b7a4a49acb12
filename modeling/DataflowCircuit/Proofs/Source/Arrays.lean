import DataflowCircuit.Proofs.Process.Scopes
import DataflowCircuit.Proofs.Source.Words

/-!
# Arrays Are Gathered As They Were Declared

Reading replaces the declaration of an array by one channel for each member,
and the printer gathers members by the bases of their names alone. The two
agree because names are declared once: a second array of the same base would
declare the first member again, so the members of an array stand together, and
there are as many names with its base as it has members.

A name that ends in an index has a base exactly if it belongs to an array,
since a declared path carries no index. Of the paths, only that is needed: they
have no brackets.

## Main definitions

* `DeclaredName.text`: The text of a declared name.
* `DeclaredName.Valid`: A declared name that can be read.
* `DeclaredName.Gatherable`: A declared name without brackets in its path.
* `placed`: Declared names with the positions of their first channels.
* `Entry`: A declared name with its type and kind.

## Theorems

* `arrayBase?_path`, `arrayBase?_indexed`: The bases of names.
* `groupArrays_expandNames`: Gathering undoes expansion.
* `grouped_entries`: What is gathered from the channels of a scope.
-/

namespace DataflowCircuit

namespace Source

/-- A declared name as source text. -/
def DeclaredName.text (d : DeclaredName) : String :=
  match d.length with
  | none => d.path
  | some length => s!"{d.path}[{length}]"

/-- A declared name that can be read: its path is one, and its length is
    positive and fits into a word. -/
structure DeclaredName.Valid (d : DeclaredName) : Prop where
  path : IsPath d.path.toList
  length : ∀ n ∈ d.length, 0 < n ∧ n < UInt64.size

/-- A text without brackets. -/
def Bracketless (cs : List Char) : Prop :=
  ∀ c ∈ cs, c ≠ '[' ∧ c ≠ ']'

instance (cs : List Char) : Decidable (Bracketless cs) :=
  List.decidableBAll _ cs

/-- A declared name whose channels can be gathered again: its path has no
    brackets, and its length is positive. -/
structure DeclaredName.Gatherable (d : DeclaredName) : Prop where
  path : Bracketless d.path.toList
  length : ∀ n ∈ d.length, 0 < n

/-- A path that can be read has no brackets. -/
theorem bracketless_of_isPath (cs : List Char) (h : IsPath cs) : Bracketless cs := by
  intro c hc
  rcases isPath_chars cs h c hc with htail | rfl
  · exact ⟨ne_of_isTail c '[' htail rfl, ne_of_isTail c ']' htail rfl⟩
  · decide

/-- What can be read can be gathered. -/
theorem DeclaredName.Valid.gatherable {d : DeclaredName} (h : d.Valid) : d.Gatherable :=
  ⟨bracketless_of_isPath _ h.path, fun n hn => (h.length n hn).1⟩

/-- A channel is written as its path. -/
theorem text_none (d : DeclaredName) (hd : d.length = none) : d.text = d.path := by
  unfold DeclaredName.text
  rw [hd]

/-- An array is written with its length. -/
theorem text_some (d : DeclaredName) (n : Nat) (hd : d.length = some n) :
    d.text = s!"{d.path}[{n}]" := by
  unfold DeclaredName.text
  rw [hd]

/-- A channel stands for itself. -/
theorem expand_none (d : DeclaredName) (hd : d.length = none) : d.expand = [d.path] := by
  unfold DeclaredName.expand
  rw [hd]

/-- An array stands for its members in order. -/
theorem expand_some (d : DeclaredName) (n : Nat) (hd : d.length = some n) :
    d.expand = (List.range n).map fun i => s!"{d.path}[{i}]" := by
  unfold DeclaredName.expand
  rw [hd]

section Bases

/-- The characters of a member's name. -/
theorem toList_indexed (path : String) (i : Nat) :
    (s!"{path}[{i}]").toList = path.toList ++ '[' :: (Nat.toDigits 10 i ++ [']']) := by
  change (path ++ "[" ++ toString i ++ "]").toList = _
  simp

/-- A path has no base. -/
theorem arrayBase?_path (path : String) (h : Bracketless path.toList) :
    arrayBase? path = none := by
  unfold arrayBase?
  split
  · rename_i inner heq
    -- A name with a base ends in a bracket, and a path has none.
    have hmem : ']' ∈ path.toList := by
      rw [← List.mem_reverse, heq]
      exact List.mem_cons_self
    exact absurd rfl (h ']' hmem).2
  · rfl

/-- A member of an array has the path of the array as its base. -/
theorem arrayBase?_indexed (path : String) (i : Nat) (h : Bracketless path.toList) :
    arrayBase? s!"{path}[{i}]" = some path := by
  have hdigits : ∀ c ∈ (Nat.toDigits 10 i).reverse, decide (c ≠ '[') = true := by
    intro c hc
    refine decide_eq_true ?_
    intro heq
    have hdigit := Text.isDigit_toDigits i c (List.mem_reverse.mp hc)
    rw [heq] at hdigit
    cases hdigit
  -- The name is read from its end: a bracket, digits, and the other bracket.
  have hspan := span_append (fun c => decide (c ≠ '[')) (Nat.toDigits 10 i).reverse
    ('[' :: path.toList.reverse) hdigits (head_cons '[' _ rfl)
  have hall : (Nat.toDigits 10 i).reverse.all Char.isDigit = true := by
    rw [List.all_reverse, List.all_eq_true]
    exact Text.isDigit_toDigits i
  have hbase : path.toList.reverse.all (fun c => c ≠ '[' && c ≠ ']') = true := by
    rw [List.all_reverse, List.all_eq_true]
    intro c hc
    simp [h c hc]
  have hreverse : (s!"{path}[{i}]").toList.reverse
      = ']' :: ((Nat.toDigits 10 i).reverse ++ '[' :: path.toList.reverse) := by
    rw [toList_indexed]
    simp
  unfold arrayBase?
  rw [hreverse]
  simp only [hspan.1, hspan.2, hall, hbase, List.reverse_reverse, String.ofList_toList,
    Bool.and_self, if_true]

/-- The names of an array are those of its members. -/
theorem mem_expand_some (d : DeclaredName) (n : Nat) (hd : d.length = some n) (name : String) :
    name ∈ d.expand ↔ ∃ i, i < n ∧ name = s!"{d.path}[{i}]" := by
  rw [expand_some d n hd]
  simp only [List.mem_map, List.mem_range]
  constructor
  · rintro ⟨i, hi, rfl⟩
    exact ⟨i, hi, rfl⟩
  · rintro ⟨i, hi, rfl⟩
    exact ⟨i, hi, rfl⟩

/-- A declared name stands for at least one channel. -/
theorem expand_ne_nil (d : DeclaredName) (hd : d.Gatherable) : d.expand ≠ [] := by
  cases hlength : d.length with
  | none =>
      rw [expand_none d hlength]
      exact List.cons_ne_nil _ _
  | some n =>
      exact List.ne_nil_of_mem
        ((mem_expand_some d n hlength _).mpr ⟨0, hd.length n hlength, rfl⟩)

/-- The names of declared channels can be read. -/
theorem isName_expand (d : DeclaredName) (hd : d.Valid) (name : String) (hname : name ∈ d.expand) :
    IsName name.toList := by
  cases hlength : d.length with
  | none =>
      rw [expand_none d hlength] at hname
      rw [List.mem_singleton.mp hname]
      exact ⟨d.path.toList, [], (List.append_nil _).symm, hd.path, Or.inl rfl⟩
  | some n =>
      rcases (mem_expand_some d n hlength name).mp hname with ⟨i, _, rfl⟩
      exact ⟨d.path.toList, _, toList_indexed d.path i, hd.path, Or.inr ⟨i, rfl⟩⟩

/-- If a base occurs, so does the first member of its array. -/
theorem first_mem_of_base (ds : List DeclaredName) (hds : ∀ d ∈ ds, d.Gatherable)
    (path : String) (h : some path ∈ (expandNames ds).map arrayBase?) :
    s!"{path}[{0}]" ∈ expandNames ds := by
  rcases List.mem_map.mp h with ⟨name, hname, hbase⟩
  rcases List.mem_flatMap.mp hname with ⟨d, hd, hexpand⟩
  cases hlength : d.length with
  | none =>
      rw [expand_none d hlength] at hexpand
      -- A channel has no base, so the name is that of a member.
      rw [List.mem_singleton.mp hexpand, arrayBase?_path _ (hds d hd).path] at hbase
      cases hbase
  | some n =>
      rcases (mem_expand_some d n hlength name).mp hexpand with ⟨i, hi, rfl⟩
      rw [arrayBase?_indexed _ i (hds d hd).path] at hbase
      cases hbase
      refine List.mem_flatMap.mpr ⟨d, hd, (mem_expand_some d n hlength _).mpr ⟨0, ?_, rfl⟩⟩
      exact (hds d hd).length n hlength

end Bases

section Gathering

/-- Declared names with the positions of their first channels, from `k` on. -/
def placed (k : Nat) : List DeclaredName → List (String × Nat)
  | [] => []
  | d :: ds => (d.text, k) :: placed (k + d.expand.length) ds

/-- The members of an array stand together and are gathered where the first
    one stands. -/
theorem filterMap_array (path : String) (n k : Nat) (bases : List (Option String)) (hn : 0 < n)
    (hpath : Bracketless path.toList) (hidx : bases.idxOf (some path) = k)
    (hcount : bases.count (some path) = n) :
    (((List.range n).map fun i => s!"{path}[{i}]").zipIdx k).filterMap
      (fun (name, position) => groupAt bases name position) = [(s!"{path}[{n}]", k)] := by
  -- Of the members, only the first stands where the base is first seen.
  have hgroup : ∀ i, groupAt bases s!"{path}[{i}]" (k + i)
      = if i = 0 then some (s!"{path}[{n}]", k) else none := by
    intro i
    unfold groupAt
    rw [arrayBase?_indexed path i hpath]
    simp only [hidx, hcount]
    by_cases hi : i = 0
    · rw [if_pos hi, if_pos (by omega), hi, Nat.add_zero]
    · rw [if_neg hi, if_neg (by omega)]
  have hzip : ((List.range n).map fun i => s!"{path}[{i}]").zipIdx k
      = (List.range n).map fun i => (s!"{path}[{i}]", k + i) := by
    refine List.ext_getElem? fun j => ?_
    rw [List.getElem?_zipIdx, List.getElem?_map, List.getElem?_map, Option.map_map]
    by_cases hj : j < n
    · rw [List.getElem?_range hj]
      rfl
    · rw [List.getElem?_eq_none (by rw [List.length_range]; omega)]
      rfl
  rw [hzip, List.filterMap_map]
  have hcomp : ((fun (p : String × Nat) => groupAt bases p.1 p.2) ∘
        fun i => (s!"{path}[{i}]", k + i))
      = fun i => if i = 0 then some (s!"{path}[{n}]", k) else none := funext hgroup
  cases n with
  | zero => omega
  | succ m =>
      have hnone : (List.range m).filterMap (((fun i => if i = 0 then
          some (s!"{path}[{m + 1}]", k) else none) ∘ Nat.succ)) = [] := by
        refine List.filterMap_eq_nil_iff.mpr fun i _ => ?_
        rw [Function.comp_apply, if_neg (Nat.succ_ne_zero i)]
      change (List.range (m + 1)).filterMap ((fun (p : String × Nat) => groupAt bases p.1 p.2) ∘
        fun i => (s!"{path}[{i}]", k + i)) = _
      rw [hcomp, List.range_succ_eq_map, List.filterMap_cons, List.filterMap_map, hnone, if_pos rfl]

/-- The members of an array all have its path as their base. -/
theorem bases_array (path : String) (n : Nat) (hpath : Bracketless path.toList) :
    ((List.range n).map fun i => s!"{path}[{i}]").map arrayBase?
      = List.replicate n (some path) := by
  rw [List.map_map]
  refine List.eq_replicate_iff.mpr ⟨?_, ?_⟩
  · rw [List.length_map, List.length_range]
  · intro b hb
    rcases List.mem_map.mp hb with ⟨i, _, rfl⟩
    exact arrayBase?_indexed path i hpath

/-- The bases of names among which an array is declared: none but its members
    have its path as their base. -/
theorem bases_around (pre post : List DeclaredName) (d : DeclaredName) (n : Nat)
    (hlen : d.length = some n) (hvalid : ∀ e ∈ pre ++ d :: post, e.Gatherable)
    (hnodup : (expandNames (pre ++ d :: post)).Nodup) :
    ∃ before after, (expandNames (pre ++ d :: post)).map arrayBase?
        = before ++ (List.replicate n (some d.path) ++ after) ∧
      before.length = (expandNames pre).length ∧ some d.path ∉ before ∧ some d.path ∉ after := by
  have hd : d.Gatherable := hvalid d (List.mem_append_right pre List.mem_cons_self)
  -- The first member is declared here and nowhere else.
  have hfirst : s!"{d.path}[{0}]" ∈ d.expand :=
    (mem_expand_some d n hlen _).mpr ⟨0, hd.length n hlen, rfl⟩
  have hnames : expandNames (pre ++ d :: post)
      = expandNames pre ++ (d.expand ++ expandNames post) := by
    simp [expandNames]
  rw [hnames] at hnodup
  refine ⟨(expandNames pre).map arrayBase?, (expandNames post).map arrayBase?, ?_,
    List.length_map _, ?_, ?_⟩
  · rw [hnames, List.map_append, List.map_append, expand_some d n hlen,
      bases_array d.path n hd.path]
  · intro hmem
    have hmem' := first_mem_of_base pre (fun e he => hvalid e (List.mem_append_left _ he)) d.path
      hmem
    -- Another array of this base would have declared the first member in front of it.
    exact (List.nodup_append.mp hnodup).2.2 _ hmem' _ (List.mem_append_left _ hfirst) rfl
  · intro hmem
    have hmem' := first_mem_of_base post
      (fun e he => hvalid e (List.mem_append_right _ (List.mem_cons_of_mem _ he))) d.path hmem
    have hrest := (List.nodup_append.mp hnodup).2.1
    exact (List.nodup_append.mp hrest).2.2 _ hfirst _ hmem' rfl

/-- The channels of one declared name are gathered to it. -/
theorem filterMap_expand (pre post : List DeclaredName) (d : DeclaredName)
    (hvalid : ∀ e ∈ pre ++ d :: post, e.Gatherable)
    (hnodup : (expandNames (pre ++ d :: post)).Nodup) :
    (d.expand.zipIdx (expandNames pre).length).filterMap
      (fun (name, position) =>
        groupAt ((expandNames (pre ++ d :: post)).map arrayBase?) name position)
      = [(d.text, (expandNames pre).length)] := by
  have hd : d.Gatherable := hvalid d (List.mem_append_right pre List.mem_cons_self)
  cases hlen : d.length with
  | none =>
      rw [expand_none d hlen, text_none d hlen, List.zipIdx_singleton]
      simp [groupAt, arrayBase?_path d.path hd.path]
  | some n =>
      have hpos := hd.length n hlen
      rcases bases_around pre post d n hlen hvalid hnodup with
        ⟨before, after, hbases, hlength, hbefore, hafter⟩
      rw [expand_some d n hlen, text_some d n hlen]
      -- The base is first seen where the array stands, and occurs as often as it has members.
      refine filterMap_array d.path n _ _ hpos hd.path ?_ ?_
      · rw [hbases, List.idxOf_append_of_notMem hbefore, hlength]
        cases n with
        | zero => omega
        | succ m => rw [List.replicate_succ, List.cons_append, List.idxOf_cons_self, Nat.add_zero]
      · rw [hbases, List.count_append, List.count_append, List.count_replicate_self,
          List.count_eq_zero.mpr hbefore, List.count_eq_zero.mpr hafter]
        omega

/-- Gathering the channels of `post`, which stand after those of `pre`. -/
theorem filterMap_expandNames (pre post : List DeclaredName)
    (hvalid : ∀ d ∈ pre ++ post, d.Gatherable) (hnodup : (expandNames (pre ++ post)).Nodup) :
    ((expandNames post).zipIdx (expandNames pre).length).filterMap
      (fun (name, position) => groupAt ((expandNames (pre ++ post)).map arrayBase?) name position)
        = placed (expandNames pre).length post := by
  induction post generalizing pre with
  | nil => rfl
  | cons d post ih =>
      have hmove : pre ++ d :: post = (pre ++ [d]) ++ post := by
        rw [List.append_assoc, List.singleton_append]
      have hlength : (expandNames pre).length + d.expand.length
          = (expandNames (pre ++ [d])).length := by
        simp [expandNames]
      -- The channels of `d` are gathered first, then those after it.
      have hhead := filterMap_expand pre post d hvalid hnodup
      have htail := ih (pre ++ [d]) (hmove ▸ hvalid) (hmove ▸ hnodup)
      have hsplit : expandNames (d :: post) = d.expand ++ expandNames post := rfl
      rw [hsplit, List.zipIdx_append, List.filterMap_append, hhead, hlength, placed, hlength,
        ← htail, hmove]
      rfl

/-- Gathering undoes expansion. -/
theorem groupArrays_expandNames (ds : List DeclaredName) (hvalid : ∀ d ∈ ds, d.Gatherable)
    (hnodup : (expandNames ds).Nodup) : groupArrays (expandNames ds) = placed 0 ds :=
  filterMap_expandNames [] ds hvalid hnodup

end Gathering

section Entries

/-- A declared name with its type and kind. -/
structure Entry where
  name : DeclaredName
  type : ChannelType
  kind : ChannelKind

/-- The channels that an entry declares. -/
def Entry.expand (e : Entry) : List NewChannel :=
  e.name.expand.map fun name => ⟨name, e.type, e.kind⟩

/-- The channels that entries declare, in order. -/
def expandEntries (es : List Entry) : List NewChannel :=
  es.flatMap Entry.expand

/-- The names that entries declare are those of their declared names. -/
theorem expandEntries_names (es : List Entry) :
    (expandEntries es).map NewChannel.name = expandNames (es.map Entry.name) := by
  induction es with
  | nil => rfl
  | cons e es ih =>
      have hexpand : e.expand.map NewChannel.name = e.name.expand := by
        unfold Entry.expand
        rw [List.map_map]
        exact List.map_id' _
      change (e.expand ++ expandEntries es).map NewChannel.name
        = e.name.expand ++ expandNames (es.map Entry.name)
      rw [List.map_append, hexpand, ih]

/-- The first channel of an entry. -/
theorem expand_head (e : Entry) (he : e.name.Valid) :
    ∃ name rest, e.expand = ⟨name, e.type, e.kind⟩ :: rest := by
  rcases List.exists_cons_of_ne_nil (expand_ne_nil e.name he.gatherable) with
    ⟨name, rest, hcons⟩
  refine ⟨name, rest.map fun name => ⟨name, e.type, e.kind⟩, ?_⟩
  unfold Entry.expand
  rw [hcons]
  rfl

/-- At the position of a declared name stands a channel of its type and
    kind. -/
theorem filterMap_placed (pre post : List Entry) (hvalid : ∀ e ∈ post, e.name.Valid) :
    (placed (expandEntries pre).length (post.map Entry.name)).filterMap
      (fun (name, position) => (expandEntries (pre ++ post))[position]?.map
        fun c => (name, c.type, c.kind))
      = post.map fun e => (e.name.text, e.type, e.kind) := by
  induction post generalizing pre with
  | nil => rfl
  | cons e post ih =>
      rcases expand_head e (hvalid e List.mem_cons_self) with ⟨name, rest, hexpand⟩
      -- The first channel of the entry stands right behind the channels of `pre`.
      have hget : (expandEntries (pre ++ e :: post))[(expandEntries pre).length]?
          = some ⟨name, e.type, e.kind⟩ := by
        unfold expandEntries
        rw [List.flatMap_append, List.flatMap_cons, List.getElem?_append_right (Nat.le_refl _),
          Nat.sub_self, hexpand]
        rfl
      have hlength : (expandEntries pre).length + e.name.expand.length
          = (expandEntries (pre ++ [e])).length := by
        simp [expandEntries, Entry.expand]
      have htail := ih (pre ++ [e]) fun d hd => hvalid d (List.mem_cons_of_mem e hd)
      rw [List.append_assoc, List.singleton_append] at htail
      rw [List.map_cons, placed, List.filterMap_cons]
      simp only [hget, Option.map_some]
      rw [hlength, htail, List.map_cons]

/-- A function that is defined on a whole list gives its values position by
    position. -/
theorem getElem?_bind_of_map_eq {α β : Type} (f : α → Option β) (xs : List α) (ys : List β)
    (h : xs.map f = ys.map some) (position : Nat) : xs[position]?.bind f = ys[position]? := by
  have hget := congrArg (·[position]?) h
  simp only [List.getElem?_map] at hget
  cases hx : xs[position]? with
  | none =>
      rw [hx] at hget
      cases hy : ys[position]? with
      | none => rfl
      | some y =>
          rw [hy] at hget
          cases hget
  | some x =>
      rw [hx] at hget
      cases hy : ys[position]? with
      | none =>
          rw [hy] at hget
          cases hget
      | some y =>
          rw [hy, Option.map_some, Option.map_some, Option.some.injEq] at hget
          exact hget

/-- What is gathered from the channels of a scope is what was declared. -/
theorem grouped_entries (s : Scope) (ids : List ChannelId) (es : List Entry)
    (hvalid : ∀ e ∈ es, e.name.Valid) (hids : ids.map s.info? = (expandEntries es).map some)
    (hnodup : ((expandEntries es).map NewChannel.name).Nodup) :
    (Process.grouped s ids).map (fun (name, c) => (name, c.type, c.kind))
      = es.map fun e => (e.name.text, e.type, e.kind) := by
  -- Names, types and kinds are all read off what was declared.
  have hnames : ids.map s.nameOf = expandNames (es.map Entry.name) := by
    have hname : s.nameOf = (fun o => Option.elim o "<unknown>" NewChannel.name) ∘ s.info? :=
      funext s.nameOf_info
    rw [hname, ← List.map_map, hids, List.map_map, ← expandEntries_names]
    rfl
  have hvalid' : ∀ d ∈ es.map Entry.name, d.Gatherable := by
    intro d hd
    rcases List.mem_map.mp hd with ⟨e, he, rfl⟩
    exact (hvalid e he).gatherable
  unfold Process.grouped
  rw [hnames, groupArrays_expandNames _ hvalid' (by rw [← expandEntries_names]; exact hnodup),
    List.map_filterMap, ← filterMap_placed [] es hvalid]
  refine congrArg (List.filterMap · _) (funext fun x => ?_)
  rcases x with ⟨name, position⟩
  change Option.map _ (ids[position]?.bind fun id => (s.channel? id).bind fun c => some (name, c))
    = (expandEntries es)[position]?.map fun c => (name, c.type, c.kind)
  rw [← getElem?_bind_of_map_eq s.info? ids _ hids position]
  cases ids[position]? with
  | none => rfl
  | some id =>
      rw [Option.bind_some, Option.bind_some, Scope.info?_eq]
      cases s.channel? id with
      | none => rfl
      | some c => rfl

end Entries

end Source

end DataflowCircuit
