import DataflowCircuit.Proofs.Source.Accepted
import DataflowCircuit.Proofs.Source.Declarations

/-!
# Resolved Processes

What is true of every process that was read and resolved, and why writing its
elements with names again and resolving them gives the same elements: every
reference of a resolved element is a root, the name of a root resolves to it,
and making references canonical leaves roots alone.

The channels of a process are described by entries, one for each name that was
declared. The signature is the first part of them and the body the second, so
the ports and the other channels of the scope are the two parts in order.

## Main definitions

* `Expr.Resolved`: Expressions over roots, with literals and widths in range.
* `Element.Resolved`: Elements over roots.
* `CompactProcess.portEntries`, `CompactProcess.localEntries`: The entries of a
  process.
* `Origin`: A resolved process and the entries it was declared with.

## Theorems

* `resolve_written`: A written expression resolves to what it was written for.
* `resolve_written_element`: So does a written element.
* `origin_of_resolve`: What is true of every resolved process.
-/

namespace DataflowCircuit

namespace Expr

/-- Literals fit into words, references are roots and casts have widths. -/
def Resolved (s : Scope) : Expr → Prop
  | .const v => v < UInt64.size
  | .var id => s.IsRoot id
  | .binary _ lhs rhs => lhs.Resolved s ∧ rhs.Resolved s
  | .unary _ arg => arg.Resolved s
  | .query c t e => c.Resolved s ∧ t.Resolved s ∧ e.Resolved s
  | .cast arg width => arg.Resolved s ∧ ∀ w ∈ width, isChannelWidth w = true

/-- Making the references of a resolved expression canonical changes nothing. -/
theorem map_canonical (s : Scope) (e : Expr) (he : e.Resolved s) : e.map s.canonical = e := by
  induction e with
  | const v => rfl
  | var id => exact congrArg Expr.var he.2
  | binary op l r ihl ihr => rw [map, ihl he.1, ihr he.2]
  | unary op e ih => rw [map, ih he]
  | query c t e ihc iht ihe => rw [map, ihc he.1, iht he.2.1, ihe he.2.2]
  | cast e width ih => rw [map, ih he.1]

/-- A written expression resolves to what it was written for. -/
theorem resolve_written (s : Scope) (hs : s.Sound) (e : Expr) (he : e.Resolved s) :
    (e.written s).resolve s = .ok e := by
  induction e with
  | const v => rfl
  | var id =>
      rw [written, Source.Expr.resolve, s.resolve_nameOf hs id he]
      rfl
  | binary op l r ihl ihr =>
      rw [written, Source.Expr.resolve, ihl he.1, ihr he.2]
      rfl
  | unary op e ih =>
      rw [written, Source.Expr.resolve, ih he]
      rfl
  | query c t e ihc iht ihe =>
      rw [written, Source.Expr.resolve, ihc he.1, iht he.2.1, ihe he.2.2]
      rfl
  | cast e width ih =>
      cases width with
      | none =>
          rw [written, Source.Expr.resolve, ih he.1]
          rfl
      | some w =>
          -- The width is one that a channel can have, so the check passes again.
          rw [written, Source.Expr.resolve, if_pos (he.2 w rfl), ih he.1]
          rfl

/-- A width that a channel can have fits into a word. -/
theorem width_lt_of_isChannelWidth (w : Nat) (h : isChannelWidth w = true) : w < UInt64.size := by
  unfold isChannelWidth at h
  simp only [Bool.and_eq_true, decide_eq_true_eq] at h
  exact Nat.lt_trans h.2 (by decide)

/-- A resolved expression can be read back if the names of roots can. -/
theorem readable_of_resolved (s : Scope) (hnames : ∀ id, s.IsRoot id → s.Named id) (e : Expr)
    (he : e.Resolved s) : e.Readable s := by
  induction e with
  | const v => exact he
  | var id => exact hnames id he
  | binary op l r ihl ihr => exact ⟨ihl he.1, ihr he.2⟩
  | unary op e ih => exact ih he
  | query c t e ihc iht ihe => exact ⟨ihc he.1, iht he.2.1, ihe he.2.2⟩
  | cast e width ih => exact ⟨ih he.1, fun w hw => width_lt_of_isChannelWidth w (he.2 w hw)⟩

end Expr

namespace Source

/-- What a name resolves to is a root. -/
theorem isRoot_of_resolve (s : Scope) (hs : s.Sound) (name : String) (id : ChannelId)
    (h : s.resolve name = .ok id) : s.IsRoot id := by
  rcases s.resolve_ok hs name id h with ⟨c, hc, hroot⟩
  refine ⟨(List.getElem?_eq_some_iff.mp hc).1, ?_⟩
  rw [s.canonical_eq id c hc, hroot]

/-- Resolving an expression makes it one over roots. -/
theorem resolved_of_resolve (s : Scope) (hs : s.Sound) (e : Expr) (e' : DataflowCircuit.Expr)
    (h : e.resolve s = .ok e') (he : e.Bounded) : e'.Resolved s := by
  induction e generalizing e' with
  | const v =>
      cases h
      exact he
  | var name =>
      rcases except_bind_ok_iff.mp h with ⟨id, hid, h₁⟩
      cases h₁
      exact isRoot_of_resolve s hs name id hid
  | binary op l r ihl ihr =>
      rcases except_bind_ok_iff.mp h with ⟨l', hl, h₁⟩
      rcases except_bind_ok_iff.mp h₁ with ⟨r', hr, h₂⟩
      cases h₂
      exact ⟨ihl l' hl he.1, ihr r' hr he.2⟩
  | unary op e ih =>
      rcases except_bind_ok_iff.mp h with ⟨a, ha, h₁⟩
      cases h₁
      exact ih a ha he
  | query c t e ihc iht ihe =>
      rcases except_bind_ok_iff.mp h with ⟨c', hc, h₁⟩
      rcases except_bind_ok_iff.mp h₁ with ⟨t', ht, h₂⟩
      rcases except_bind_ok_iff.mp h₂ with ⟨e', he', h₃⟩
      cases h₃
      exact ⟨ihc c' hc he.1, iht t' ht he.2.1, ihe e' he' he.2.2⟩
  | intCast e width ih =>
      cases width with
      | none =>
          rcases except_bind_ok_iff.mp h with ⟨a, ha, h₁⟩
          cases h₁
          -- A cast without a width fixes none.
          exact ⟨ih a ha he, fun w hw => absurd hw (Option.not_mem_none w)⟩
      | some w =>
          rw [Expr.resolve] at h
          split at h
          · rename_i hw
            rcases except_bind_ok_iff.mp h with ⟨a, ha, h₁⟩
            cases h₁
            refine ⟨ih a ha he, fun w' hw' => ?_⟩
            cases hw'
            exact hw
          · cases h
  | boolCast e ih =>
      rcases except_bind_ok_iff.mp h with ⟨a, ha, h₁⟩
      cases h₁
      refine ⟨ih a ha he, fun w hw => ?_⟩
      cases hw
      rfl

/-- Only a bare channel resolves to one. -/
theorem isVar_of_resolve (s : Scope) (e : Expr) (e' : DataflowCircuit.Expr)
    (h : e.resolve s = .ok e') (he' : e'.IsVar) : e.IsVar := by
  rcases he' with ⟨id, rfl⟩
  cases e with
  | var name => exact ⟨name, rfl⟩
  | const v => cases h
  | binary op l r =>
      rcases except_bind_ok_iff.mp h with ⟨l', hl, h₁⟩
      rcases except_bind_ok_iff.mp h₁ with ⟨r', hr, h₂⟩
      cases h₂
  | unary op e =>
      rcases except_bind_ok_iff.mp h with ⟨a, ha, h₁⟩
      cases h₁
  | query c t e =>
      rcases except_bind_ok_iff.mp h with ⟨c', hc, h₁⟩
      rcases except_bind_ok_iff.mp h₁ with ⟨t', ht, h₂⟩
      rcases except_bind_ok_iff.mp h₂ with ⟨e', he', h₃⟩
      cases h₃
  | intCast e width =>
      cases width with
      | none =>
          rcases except_bind_ok_iff.mp h with ⟨a, ha, h₁⟩
          cases h₁
      | some w =>
          rw [Expr.resolve] at h
          split at h
          · rcases except_bind_ok_iff.mp h with ⟨a, ha, h₁⟩
            cases h₁
          · cases h
  | boolCast e =>
      rcases except_bind_ok_iff.mp h with ⟨a, ha, h₁⟩
      cases h₁

/-- An element over roots in the shape of one that was read. -/
def Resolved (s : Scope) (el : Element ChannelId DataflowCircuit.Expr) : Prop :=
  el.WellFormed s.IsRoot (Expr.Resolved s) DataflowCircuit.Expr.IsVar

/-- Resolving an element makes it one over roots. -/
theorem resolved_statement (s : Scope) (hs : s.Sound) (st : Statement)
    (el : Element ChannelId DataflowCircuit.Expr) (h : st.resolve s = .ok el)
    (hst : st.Accepted) : Resolved s el :=
  traverse_wellFormed s.resolve (Expr.resolve s)
    (fun name id hid _ => isRoot_of_resolve s hs name id hid) (resolved_of_resolve s hs)
    (isVar_of_resolve s) st el h hst

/-- A resolved element is not changed by making references canonical. -/
theorem resolved_canonical (s : Scope) (el : Element ChannelId DataflowCircuit.Expr)
    (hel : Resolved s el) : el.map s.canonical (Expr.map s.canonical) = el :=
  map_eq_self s.canonical (Expr.map s.canonical) (fun _ hc => hc.2) (Expr.map_canonical s) el hel

/-- A written element resolves to what it was written for. -/
theorem resolve_written_element (s : Scope) (hs : s.Sound)
    (el : Element ChannelId DataflowCircuit.Expr) (hel : Resolved s el) :
    Statement.resolve s (el.written s) = .ok el :=
  traverse_map_cancel s.resolve (Expr.resolve s) s.nameOf (Expr.written s) (s.resolve_nameOf hs)
    (Expr.resolve_written s hs) el hel

/-- A resolved element can be read back if the names of roots can. -/
theorem readable_element (s : Scope) (hnames : ∀ id, s.IsRoot id → s.Named id)
    (el : Element ChannelId DataflowCircuit.Expr) (hel : Resolved s el) : el.Readable s :=
  wellFormed_mono hnames (Expr.readable_of_resolved s hnames) el hel

section Entries

/-- The entries of a signature. -/
def CompactProcess.portEntries (p : CompactProcess) : List Entry :=
  p.ports.flatMap fun g => g.names.map fun d => ⟨d, g.type, .port g.direction⟩

/-- The entries that an item of a body declares. -/
def BodyItem.entries : BodyItem → List Entry
  | .declarations type names => names.map fun d => ⟨d, type, .internal⟩
  | .alias _ => []

/-- The entries of a body. -/
def CompactProcess.localEntries (p : CompactProcess) : List Entry :=
  p.items.flatMap BodyItem.entries

/-- Entries expand one after another. -/
theorem expandEntries_append (es fs : List Entry) :
    expandEntries (es ++ fs) = expandEntries es ++ expandEntries fs :=
  List.flatMap_append

/-- Names that share a type and a kind expand as names do. -/
theorem expandEntries_names_map (ds : List DeclaredName) (type : ChannelType) (kind : ChannelKind) :
    expandEntries (ds.map fun d => ⟨d, type, kind⟩)
      = (expandNames ds).map fun name => ⟨name, type, kind⟩ := by
  unfold expandEntries expandNames
  rw [List.flatMap_map, List.map_flatMap]
  rfl

/-- The channels of a process are those of its entries. -/
theorem channels_expand (p : CompactProcess) :
    p.expand.channels = expandEntries (p.portEntries ++ p.localEntries) := by
  have hports : ∀ gs : List PortGroup,
      (gs.flatMap PortGroup.expand).map
          (fun port => (⟨port.name, port.type, .port port.direction⟩ : NewChannel))
        = expandEntries
            (gs.flatMap fun g => g.names.map fun d => ⟨d, g.type, .port g.direction⟩) := by
    intro gs
    induction gs with
    | nil => rfl
    | cons g gs ih =>
        rw [List.flatMap_cons, List.map_append, ih, List.flatMap_cons, expandEntries_append,
          expandEntries_names_map, PortGroup.expand, List.map_map]
        rfl
  have hlocals : ∀ is : List BodyItem,
      (is.flatMap BodyItem.expand).map (fun d => (⟨d.name, d.type, .internal⟩ : NewChannel))
        = expandEntries (is.flatMap BodyItem.entries) := by
    intro is
    induction is with
    | nil => rfl
    | cons i is ih =>
        rw [List.flatMap_cons, List.map_append, ih, List.flatMap_cons, expandEntries_append]
        rcases i with ⟨type, names⟩ | a
        · rw [BodyItem.entries, expandEntries_names_map, BodyItem.expand, List.map_map]
          rfl
        · rfl
  rw [expandEntries_append]
  unfold Process.channels
  -- The ports come first, and then what the body declares.
  exact congr (congrArg _ (hports p.ports)) (hlocals p.items)

/-- The entries of an accepted signature have names that can be read, and are
    ports. -/
theorem valid_portEntries (p : CompactProcess) (hp : p.Accepted) :
    ∀ e ∈ p.portEntries, e.name.Valid ∧ e.kind.isPort = true := by
  intro e he
  rcases List.mem_flatMap.mp he with ⟨g, hg, he⟩
  rcases List.mem_map.mp he with ⟨d, hd, rfl⟩
  exact ⟨hp.ports g hg d hd, rfl⟩

/-- The entries of an accepted body are no ports. -/
theorem valid_localEntries (p : CompactProcess) (hp : p.Accepted) :
    ∀ e ∈ p.localEntries, e.name.Valid ∧ e.kind = .internal := by
  intro e he
  rcases List.mem_flatMap.mp he with ⟨i, hi, he⟩
  rcases i with ⟨type, names⟩ | a
  · rcases List.mem_map.mp he with ⟨d, hd, rfl⟩
    exact ⟨hp.items _ hi type names rfl d hd, rfl⟩
  -- An alias declares nothing.
  · cases he

end Entries

section Origins

/-- A resolved process and the entries that its ports and its other channels
    were declared with. -/
structure Origin (q : DataflowCircuit.Process) (signature body : List Entry) : Prop where
  name : IsIdent q.name.toList
  ports : ∀ e ∈ signature, e.Valid ∧ e.kind.isPort = true
  locals : ∀ e ∈ body, e.Valid ∧ e.kind = .internal
  sound : q.scope.Sound
  infos : q.scope.infos = expandEntries (signature ++ body)
  elements : ∀ el ∈ q.elements, Resolved q.scope el
  declared : ∃ s, Scope.empty.declareAll (expandEntries (signature ++ body)) = .ok s ∧ s.Fresh ∧
    q.scope.infos = s.infos

/-- An entry whose channels were declared has a width. -/
theorem valid_entry (e : Entry) (he : e.name.Valid)
    (hwidth : ∀ c ∈ e.expand, isChannelWidth c.type.width = true) : e.Valid := by
  rcases expand_head e he with ⟨name, rest, hexpand⟩
  refine ⟨he, Expr.width_lt_of_isChannelWidth _ (hwidth ⟨name, e.type, e.kind⟩ ?_)⟩
  rw [hexpand]
  exact List.mem_cons_self

/-- What is true of every process that was read and resolved. -/
theorem origin_of_resolve (p : CompactProcess) (hp : p.Accepted) (q : DataflowCircuit.Process)
    (h : p.expand.resolve = .ok q) : Origin q p.portEntries p.localEntries ∧ q.name = p.name := by
  rcases except_bind_ok_iff.mp h with ⟨s₀, hdeclare, h₁⟩
  rcases except_bind_ok_iff.mp h₁ with ⟨s, hconnect, h₂⟩
  rcases except_bind_ok_iff.mp h₂ with ⟨els, hels, h₃⟩
  cases h₃
  rw [channels_expand] at hdeclare
  rcases Scope.declareAll_ok _ s₀ _ hdeclare List.nodup_nil (fun id c hc => by cases hc) with
    ⟨hinfos, hnodup, hfresh, hwidths⟩
  have hinfos : s₀.infos = expandEntries (p.portEntries ++ p.localEntries) := hinfos
  -- Aliases change roots only, so the scope declares what the entries say.
  rcases Scope.sound_connectAll s₀ s (s₀.sound_of_fresh hnodup hfresh) _ hconnect with
    ⟨hsound, hsame⟩
  have hresolved : ∀ el ∈ els, Resolved s el :=
    forall_of_traverseList _ Statement.Accepted _ (fun st el hel hst =>
      resolved_statement s hsound st el hel hst) _ els hels hp.statements
  -- Declaring an entry has checked its width.
  have hentry : ∀ e ∈ p.portEntries ++ p.localEntries, e.name.Valid → e.Valid := by
    intro e he hvalid
    refine valid_entry e hvalid fun c hc => hwidths c ?_
    exact List.mem_flatMap.mpr ⟨e, he, hc⟩
  refine ⟨⟨hp.name, ?_, ?_, hsound, hsame.trans hinfos, ?_, s₀, hdeclare, hfresh, hsame⟩, rfl⟩
  · intro e he
    rcases valid_portEntries p hp e he with ⟨hvalid, hkind⟩
    exact ⟨hentry e (List.mem_append_left _ he) hvalid, hkind⟩
  · intro e he
    rcases valid_localEntries p hp e he with ⟨hvalid, hkind⟩
    exact ⟨hentry e (List.mem_append_right _ he) hvalid, hkind⟩
  · intro el hel
    rcases List.mem_map.mp hel with ⟨el', hel', rfl⟩
    change Resolved s (el'.map s.canonical (Expr.map s.canonical))
    -- Names resolve to roots at once, so nothing is left to be made canonical.
    rw [resolved_canonical s el' (hresolved el' hel')]
    exact hresolved el' hel'

variable {q : DataflowCircuit.Process} {signature body : List Entry}

/-- Every declared name can be read. -/
theorem named_of_origin (hq : Origin q signature body) (id : ChannelId) (hid : id < q.scope.size) :
    q.scope.Named id := by
  rcases q.scope.channel_of_lt id hid with ⟨c, hc⟩
  have hinfo : (⟨c.name, c.type, c.kind⟩ : NewChannel) ∈ expandEntries (signature ++ body) := by
    rw [← hq.infos]
    exact List.mem_map_of_mem (List.mem_of_getElem? hc)
  rcases List.mem_flatMap.mp hinfo with ⟨e, he, hexpand⟩
  rcases List.mem_map.mp hexpand with ⟨name, hname, heq⟩
  have hcname : name = c.name := congrArg NewChannel.name heq
  -- Every declared name comes from an entry of the signature or of the body.
  have hvalid : e.name.Valid := by
    rcases List.mem_append.mp he with he | he
    · exact (hq.ports e he).1.name
    · exact (hq.locals e he).1.name
  unfold Scope.Named
  rw [q.scope.nameOf_eq id c hc, ← hcname]
  exact isName_expand e.name hvalid name hname

/-- The entries of a list that satisfy a condition, by their positions. -/
theorem map_filter_range {α : Type} (f : α → Bool) (xs : List α) :
    ((List.range xs.length).filter fun i => xs[i]?.any f).map (fun i => xs[i]?)
      = (xs.filter f).map some := by
  induction xs with
  | nil => rfl
  | cons x xs ih =>
      -- The first position is split off, and the others are those of the tail.
      rw [List.length_cons, List.range_succ_eq_map, List.filter_cons, List.filter_map]
      have htail : ((List.range xs.length).filter
            ((fun i => ((x :: xs)[i]?).any f) ∘ Nat.succ)).map
              ((fun i => (x :: xs)[i]?) ∘ Nat.succ)
          = (xs.filter f).map some := ih
      cases hx : f x with
      | true =>
          rw [if_pos (show ((x :: xs)[0]?).any f = true from hx), List.map_cons, List.map_map,
            htail, List.filter_cons_of_pos hx]
          rfl
      | false =>
          have hnot : ¬ f x = true := by
            rw [hx]
            exact Bool.false_ne_true
          rw [if_neg (show ¬ ((x :: xs)[0]?).any f = true from hnot), List.map_map, htail,
            List.filter_cons_of_neg hnot]

/-- The identities of a kind are those whose declarations have it, in order. -/
theorem map_info_filter (s : Scope) (f : ChannelKind → Bool) :
    (s.ids.filter fun id => (s.channel? id).any (f ·.kind)).map s.info?
      = (s.infos.filter (f ·.kind)).map some := by
  have hsize : s.size = s.infos.length := by
    unfold Scope.size Scope.infos
    rw [List.length_map]
  have hany : ∀ id, (s.channel? id).any (f ·.kind) = (s.infos[id]?).any (f ·.kind) := by
    intro id
    have hinfo := s.info?_eq id
    unfold Scope.info? at hinfo
    rw [hinfo, Option.any_map]
  unfold Scope.ids
  rw [← map_filter_range, ← hsize]
  simp only [hany]
  rfl

/-- The channels of a signature are ports and those of a body are none. -/
theorem isPort_of_origin (hq : Origin q signature body) :
    (∀ c ∈ expandEntries signature, c.kind.isPort = true) ∧
      ∀ c ∈ expandEntries body, c.kind.isPort = false := by
  refine ⟨?_, ?_⟩
  · intro c hc
    rcases List.mem_flatMap.mp hc with ⟨e, he, hexpand⟩
    rcases List.mem_map.mp hexpand with ⟨name, _, rfl⟩
    exact (hq.ports e he).2
  · intro c hc
    rcases List.mem_flatMap.mp hc with ⟨e, he, hexpand⟩
    rcases List.mem_map.mp hexpand with ⟨name, _, rfl⟩
    rw [(hq.locals e he).2]
    rfl

/-- No name is declared twice in a signature or in a body. -/
theorem nodup_of_origin (hq : Origin q signature body) :
    ((expandEntries signature).map NewChannel.name).Nodup ∧
      ((expandEntries body).map NewChannel.name).Nodup := by
  have hnames := hq.sound.nodup
  rw [q.scope.names_eq_infos, hq.infos, expandEntries_append, List.map_append] at hnames
  exact ⟨(List.nodup_append.mp hnames).1, (List.nodup_append.mp hnames).2.1⟩

/-- The ports of a process are those of its first entries. -/
theorem map_info_ports (hq : Origin q signature body) :
    q.ports.map q.scope.info? = (expandEntries signature).map some := by
  rcases isPort_of_origin hq with ⟨hports, hlocals⟩
  have hnone : ∀ c ∈ expandEntries body, ¬ c.kind.isPort = true := by
    intro c hc
    rw [hlocals c hc]
    exact Bool.false_ne_true
  -- Filtering what was declared keeps the first entries and drops the last.
  have hfilter := map_info_filter q.scope ChannelKind.isPort
  rw [hq.infos, expandEntries_append, List.filter_append, List.filter_eq_self.mpr hports,
    List.filter_eq_nil_iff.mpr hnone, List.append_nil] at hfilter
  exact hfilter

/-- The other channels of a process are those of its last entries. -/
theorem map_info_locals (hq : Origin q signature body) :
    q.locals.map q.scope.info? = (expandEntries body).map some := by
  rcases isPort_of_origin hq with ⟨hports, hlocals⟩
  have hnone : ∀ c ∈ expandEntries signature, ¬ (!c.kind.isPort) = true := by
    intro c hc
    rw [hports c hc]
    exact Bool.false_ne_true
  have hall : ∀ c ∈ expandEntries body, (!c.kind.isPort) = true := by
    intro c hc
    rw [hlocals c hc]
    rfl
  have hfilter := map_info_filter q.scope (!·.isPort)
  rw [hq.infos, expandEntries_append, List.filter_append, List.filter_eq_self.mpr hall,
    List.filter_eq_nil_iff.mpr hnone, List.nil_append] at hfilter
  exact hfilter

end Origins

end Source

end DataflowCircuit
