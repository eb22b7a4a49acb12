import DataflowCircuit.Proofs.Netlist.Labels
import Mathlib.Data.List.Nodup

/-!
# Identifiers of a Lowered Process

A lowered process declares its ports and channels, its copies and its instances
in one space of names. The channels that lowering introduces are drawn from a
supply that knows the declared names, so they are new. Nothing of the kind is
done for copies and instances: they are named after channels, and channels whose
names differ only in points and brackets are written alike.

This file says exactly when all the names are different. Most pairs of names
cannot clash, because they end differently: a copy in `copy`, an instance in
`_inst` or `_sink`, and a channel that was introduced in a digit or in `_buf`.
What is left are the four ways to clash that `Process.NamesApart` rules out, and
each of them is a condition on the process alone.

Copies that have the same name also have the same outputs, so two reads of
different channels are then served by the same wire.

## Main definitions

* `baseName`: The name under which a channel is declared.
* `LoweredProcess.identifiers`: Everything that a lowered process declares.
* `Process.NamesApart`: A process whose names do not clash.

## Theorems

* `draws_coinAll`: The channels that a process introduces have fresh names.
* `lowerProcess_coins`: A lowered process has the declarations of the process,
  one copy for every channel that is read more than once, and the names that the
  process coins.
* `copyOutput_eq_iff`: Two copies share an output exactly if they share a name.
* `identifiers_are_distinct_iff`: The names of a lowered process are distinct
  exactly if they are apart.
-/

namespace DataflowCircuit

/-- The name under which a channel is declared, which is that of its array if it
    belongs to one. -/
def baseName (name : String) : String :=
  (arrayBase? name).getD name

/-- Everything that a lowered process declares: ports and channels, an array
    once, then copies and instances. -/
def LoweredProcess.identifiers (out : LoweredProcess) : List String :=
  (out.ports.map PortDecl.name ++ out.channels.map ChanDecl.name).map baseName ++
    (out.copies.map Instance.name ++ out.instances.map Instance.name)

namespace Process

/-- The identifiers that a process declares, an array once. -/
def declaredNames (p : Process) : List String :=
  (p.declarations.ports.map PortDecl.name ++ p.declarations.channels.map ChanDecl.name).map baseName

/-- The names that lowering a process gives do not clash. -/
structure NamesApart (p : Process) : Prop where
  /-- Channels that have copies are written differently in identifiers. -/
  copies : ∀ a ∈ p.copied, ∀ b ∈ p.copied,
    normalizeChannel (p.scope.nameOf a) = normalizeChannel (p.scope.nameOf b) → a = b
  /-- No two instances are named after the same channels. -/
  labels : p.coined.labels.Nodup
  /-- No declared name looks like that of a copy or an instance. -/
  declared : ∀ name ∈ p.declaredNames,
    (∀ id ∈ p.copied, name ≠ copyName p.scope id) ∧ name ∉ p.coined.labels
  /-- No array is called like a channel that lowering introduces, which it knows
      only by the names of its members. -/
  arrays : ∀ name ∈ p.declaredNames, name ∉ p.scope.names → name ∉ p.coined.channels

end Process

section Fresh

open NameSupply

/-- The outputs of a split that are sunk have fresh names. -/
theorem draws_coinOutputs (s : Scope) (observed : ChannelId → Bool)
    (outs : List (Option ChannelId)) (ns : NameSupply) (h : ns.Steady) :
    Draws ns (coinOutputs s observed outs ns).2.1 (coinOutputs s observed outs ns).2.2 := by
  induction outs generalizing ns with
  | nil => exact draws_nil ns h
  | cons out outs ih =>
      unfold coinOutputs
      cases out.filter observed with
      | some id => exact ih ns h
      | none =>
          have hfirst := draws_numbered ns "sink" h
          exact hfirst.append (ih _ hfirst.steady)

/-- So have the channels in front of buffers. -/
theorem draws_coinBuffers (s : Scope) (fs : List (Func ChannelId Expr)) (ns : NameSupply)
    (h : ns.Steady) : Draws ns (coinBuffers s fs ns).1 (coinBuffers s fs ns).2 := by
  induction fs generalizing ns with
  | nil => exact draws_nil ns h
  | cons f fs ih =>
      have hfirst : Draws ns (coinBuffer s f ns).1 (coinBuffer s f ns).2 := by
        unfold coinBuffer
        split
        · -- The stem of a buffer ends in an f.
          refine draws_plain ns _ h ?_
          rw [String.toList_append, List.getLast?_append_of_ne_nil _ (by decide)]
          rfl
        · exact draws_nil ns h
      exact hfirst.append (ih _ hfirst.steady)

/-- The channels that an element introduces have fresh names. -/
theorem Element.draws_coin (s : Scope) (observed : ChannelId → Bool) (ws : List String)
    (ns : NameSupply) (h : ns.Steady) (el : Element ChannelId Expr) :
    Draws ns (el.coin s observed ws ns).channels (el.coin s observed ws ns).supply := by
  cases el with
  | func f => exact draws_coinBuffers s [f] ns h
  | cluster funcs => exact draws_coinBuffers s funcs ns h
  | split guard input outputs => exact draws_coinOutputs s observed outputs ns h
  | merge guard inputs out => exact draws_nil ns h
  | mixer inputs out => exact draws_nil ns h
  | arbiter inputs out ctrl => exact draws_nil ns h
  | sink input => exact draws_nil ns h

/-- So do those of elements in order. -/
theorem draws_coinAll (s : Scope) (observed : ChannelId → Bool)
    (els : List (Element ChannelId Expr)) (ws : List String) (ns : NameSupply) (h : ns.Steady) :
    Draws ns (coinAll s observed els ws ns).channels (coinAll s observed els ws ns).supply := by
  induction els generalizing ws ns with
  | nil => exact draws_nil ns h
  | cons el els ih =>
      have hfirst := el.draws_coin s observed (ws.take el.reads.length) ns h
      exact hfirst.append (ih _ _ hfirst.steady)

/-- The channels that a process introduces are new to it. -/
theorem Process.draws_coined (p : Process) :
    Draws (.ofNames p.scope.names) p.coined.channels p.coined.supply :=
  draws_coinAll p.scope p.observes p.elements _ _ (steady_ofNames p.scope.names)

end Fresh

section Endings

/-- The label of an instance that writes channels or consumes a wire. -/
def IsLabel (label : String) : Prop :=
  ∃ stem, label = stem ++ "_inst" ∨ label = stem ++ "_sink"

/-- A sink has a label. -/
theorem isLabel_sinkLabel (wire : String) : IsLabel (sinkLabel wire) :=
  ⟨_, Or.inr rfl⟩

/-- So have the sources, the unit and the buffers of members. -/
theorem isLabel_coinMembers (s : Scope) (funcs : List (Func ChannelId Expr)) (ns : NameSupply) :
    ∀ label ∈ (coinMembers s funcs ns).labels, IsLabel label := by
  intro label hlabel
  rcases List.mem_append.mp hlabel with hsource | hrest
  · rcases List.mem_map.mp hsource with ⟨f, _, rfl⟩
    exact ⟨_, Or.inl rfl⟩
  rcases List.mem_append.mp hrest with hunit | hbuffer
  · unfold unitLabels at hunit
    split at hunit
    · exact absurd hunit List.not_mem_nil
    · rw [List.mem_singleton.mp hunit]
      exact ⟨_, Or.inl rfl⟩
  · rcases List.mem_map.mp hbuffer with ⟨channel, _, rfl⟩
    exact ⟨_, Or.inl rfl⟩

/-- Every name that an element gives to an instance is a label. -/
theorem Element.isLabel_coin (s : Scope) (observed : ChannelId → Bool) (ws : List String)
    (ns : NameSupply) (el : Element ChannelId Expr) :
    ∀ label ∈ (el.coin s observed ws ns).labels, IsLabel label := by
  have hsinks : ∀ wires : List String, ∀ label ∈ wires.map sinkLabel, IsLabel label := by
    intro wires label hlabel
    rcases List.mem_map.mp hlabel with ⟨wire, _, rfl⟩
    exact isLabel_sinkLabel wire
  have hwriter : ∀ out, ∀ label ∈ [writerLabel s out], IsLabel label := by
    intro out label hlabel
    rw [List.mem_singleton.mp hlabel]
    exact ⟨_, Or.inl rfl⟩
  cases el with
  | func f => exact isLabel_coinMembers s [f] ns
  | cluster funcs => exact isLabel_coinMembers s funcs ns
  | split guard input outputs =>
      intro label hlabel
      rcases List.mem_cons.mp hlabel with rfl | hsunk
      · exact ⟨_, Or.inl rfl⟩
      · exact hsinks _ label hsunk
  | merge guard inputs out => exact hwriter out
  | mixer inputs out => exact hwriter out
  | arbiter inputs out ctrl => exact hwriter out
  | sink input => exact hsinks ws

/-- So have all instances. -/
theorem isLabel_coinAll (s : Scope) (observed : ChannelId → Bool)
    (els : List (Element ChannelId Expr)) (ws : List String) (ns : NameSupply) :
    ∀ label ∈ (coinAll s observed els ws ns).labels, IsLabel label := by
  induction els generalizing ws ns with
  | nil => exact fun _ hlabel => absurd hlabel List.not_mem_nil
  | cons el els ih =>
      intro label hlabel
      rcases List.mem_append.mp hlabel with hfirst | hrest
      · exact el.isLabel_coin s observed _ ns label hfirst
      · exact ih _ _ label hrest

/-- A label ends in one of two letters. -/
theorem IsLabel.last {label : String} (h : IsLabel label) :
    label.toList.getLast? = some 't' ∨ label.toList.getLast? = some 'k' := by
  rcases h with ⟨stem, rfl | rfl⟩
  · refine Or.inl ?_
    rw [String.toList_append, List.getLast?_append_of_ne_nil _ (by decide)]
    rfl
  · refine Or.inr ?_
    rw [String.toList_append, List.getLast?_append_of_ne_nil _ (by decide)]
    rfl

/-- The name of a copy ends in a letter that no label ends in. -/
theorem copyName_last (s : Scope) (id : ChannelId) :
    (copyName s id).toList.getLast? = some 'y' := by
  unfold copyName
  rw [String.toList_append, List.getLast?_append_of_ne_nil _ (by decide)]
  rfl

/-- A copy is no label. -/
theorem copyName_ne_label (s : Scope) (id : ChannelId) (label : String) (h : IsLabel label) :
    copyName s id ≠ label := by
  intro heq
  have hlast := h.last
  rw [← heq, copyName_last] at hlast
  rcases hlast with hlast | hlast <;> cases hlast

/-- A name that ends in a digit or in `f`, as fresh names do, is no label, no
    name of a copy, and no member of an array. -/
theorem fresh_apart (name : String)
    (h : ∃ c, name.toList.getLast? = some c ∧ (c.isDigit = true ∨ c = 'f')) :
    baseName name = name ∧ (∀ s id, name ≠ copyName s id) ∧ ¬ IsLabel name := by
  -- Only the last character is looked at.
  have hnot : ∀ c : Char, c.isDigit = false → c ≠ 'f' → name.toList.getLast? ≠ some c := by
    intro c hdigit hf hlast
    rcases h with ⟨d, hd, hcases⟩
    rw [hlast, Option.some.injEq] at hd
    subst hd
    rcases hcases with hcase | hcase
    · rw [hdigit] at hcase
      cases hcase
    · exact hf hcase
  -- An index ends in a bracket, a copy in `y`, a label in `t` or `k`.
  refine ⟨?_, fun s id heq => ?_, fun hlabel => ?_⟩
  · unfold baseName arrayBase?
    split
    · rename_i inner heq
      have hlast : name.toList.getLast? = some ']' := by
        rw [← List.head?_reverse, heq]
        rfl
      exact absurd hlast (hnot ']' rfl (by decide))
    · rfl
  · exact hnot 'y' rfl (by decide) (by rw [heq, copyName_last])
  · rcases hlabel.last with hlast | hlast
    · exact hnot 't' rfl (by decide) hlast
    · exact hnot 'k' rfl (by decide) hlast

end Endings

section Copies

/-- An output read from its end is a bracket, digits, and the other bracket. -/
theorem copyOutput_reverse (s : Scope) (id : ChannelId) (i : Nat) :
    (copyOutput s id i).toList.reverse = ']' :: ((Nat.toDigits 10 i).reverse ++
      '[' :: ((normalizeChannel (s.nameOf id)).toList ++ "copy.out".toList).reverse) := by
  have hlist : (copyOutput s id i).toList
      = (normalizeChannel (s.nameOf id)).toList ++ "copy".toList ++ ".out[".toList ++
        Nat.toDigits 10 i ++ "]".toList := by
    unfold copyOutput copyName
    rw [String.toList_append, String.toList_append, String.toList_append, String.toList_append,
      Text.toString_toList]
  rw [hlist]
  simp

/-- The outputs of copies are the same exactly if the copies have the same name
    and the outputs have the same number. -/
theorem copyOutput_eq_iff (s : Scope) (a b : ChannelId) (i j : Nat) :
    copyOutput s a i = copyOutput s b j ↔
      normalizeChannel (s.nameOf a) = normalizeChannel (s.nameOf b) ∧ i = j := by
  constructor
  · intro h
    have hreverse := congrArg List.reverse (congrArg String.toList h)
    rw [copyOutput_reverse, copyOutput_reverse, List.cons.injEq] at hreverse
    -- No digit is a bracket, so both sides are cut at the same place.
    have hdigit : ∀ n, ∀ c ∈ (Nat.toDigits 10 n).reverse, decide (c ≠ '[') = true := by
      intro n c hc
      refine decide_eq_true fun heq => ?_
      have hisDigit := Text.isDigit_toDigits n c (List.mem_reverse.mp hc)
      rw [heq] at hisDigit
      cases hisDigit
    have htake := congrArg (List.takeWhile fun c => decide (c ≠ '[')) hreverse.2
    have hdrop := congrArg (List.dropWhile fun c => decide (c ≠ '[')) hreverse.2
    rw [List.takeWhile_append_of_pos (hdigit i), List.takeWhile_append_of_pos (hdigit j),
      List.takeWhile_cons_of_neg (by decide), List.takeWhile_cons_of_neg (by decide),
      List.append_nil, List.append_nil] at htake
    rw [List.dropWhile_append_of_pos (hdigit i), List.dropWhile_append_of_pos (hdigit j),
      List.dropWhile_cons_of_neg (by decide), List.dropWhile_cons_of_neg (by decide),
      List.cons.injEq] at hdrop
    refine ⟨?_, toDigits_inj _ _ (List.reverse_injective htake)⟩
    exact String.toList_inj.mp (List.append_cancel_right (List.reverse_injective hdrop.2))
  · rintro ⟨hname, rfl⟩
    unfold copyOutput copyName
    rw [hname]

/-- A channel has one copy. -/
theorem copied_nodup (p : Process) : p.copied.Nodup :=
  (foldl_addRead_nodup p.reads).filter _

end Copies

section Processes

open Lowering

/-- The names of a lowered process: those it declares, one for every channel that
    is read more than once, and those that its elements coin. -/
structure NamedAs (p : Process) (out : LoweredProcess) : Prop where
  ports : out.ports = p.declarations.ports
  channels : out.channels.map ChanDecl.name
    = p.declarations.channels.map ChanDecl.name ++ p.coined.channels
  copies : out.copies.map Instance.name = p.copied.map (copyName p.scope)
  instances : out.instances.map Instance.name = p.coined.labels

/-- The call sites of a process have the labels that it coins, and it introduces
    the channels that it coins. -/
theorem Lowered.coined {p : Process} {s s' : Session} {out : LoweredProcess} {uses : UseCounts}
    {plan : CopyPlan} {τ : Trace} (h : Lowered p s s' out uses plan τ) :
    τ.sites.map Site.label = p.coined.labels ∧
      τ.declared.map ChanDecl.name = p.coined.channels := by
  rcases h.named with ⟨ns, hgives⟩
  have hcoins := h.observed.coins hgives
  rw [h.wires] at hcoins
  exact ⟨(congrArg Coined.labels hcoins).symm, (congrArg Coined.channels hcoins).symm⟩

/-- A lowered process has the names that the process coins. -/
theorem lowerProcess_coins (p : Process) (s s' : Session) (out : LoweredProcess)
    (h : lowerProcess p s = .ok out s') : NamedAs p out := by
  rcases lowerProcess_lowered p s s' out h with ⟨uses, plan, τ, hlow⟩
  rcases hlow.coined with ⟨hlabels, hchannels⟩
  -- A copy is named after its channel.
  have hnames : ∀ (ids : List ChannelId) (copies : List Instance),
      List.Forall₂ (IsCopyOf p.scope p.reads) ids copies →
      copies.map Instance.name = ids.map (copyName p.scope) := by
    intro ids copies hall
    induction hall with
    | nil => rfl
    | cons hcopy _ ih =>
        rcases hcopy with ⟨width, _, rfl⟩
        rw [List.map_cons, List.map_cons, ih]
  refine ⟨hlow.ports, ?_, ?_, ?_⟩
  · rw [hlow.channels, List.map_append, hchannels]
  · exact hnames _ _ hlow.copied
  · rw [hlow.instances s'.cache.bodies (Bodies.Keeps.refl _), List.map_map, ← hlabels]
    rfl

/-- The identifiers of a lowered process are those that are declared, the
    channels it introduces, its copies, and its labels. -/
theorem NamedAs.identifiers {p : Process} {out : LoweredProcess} (h : NamedAs p out) :
    out.identifiers = p.declaredNames ++ p.coined.channels ++
      (p.copied.map (copyName p.scope) ++ p.coined.labels) := by
  -- No fresh name is that of a member of an array.
  have hfresh : p.coined.channels.map baseName = p.coined.channels :=
    (List.map_congr_left fun name hname =>
      (fresh_apart name (p.draws_coined.ends name hname)).1).trans (List.map_id _)
  unfold LoweredProcess.identifiers Process.declaredNames
  rw [h.ports, h.channels, h.copies, h.instances]
  simp only [List.map_append, hfresh, List.append_assoc]

/-- The names of a lowered process whose declared names are distinct are all
    distinct exactly if they are apart. -/
theorem NamedAs.nodup_iff {p : Process} {out : LoweredProcess} (h : NamedAs p out)
    (hdeclared : p.declaredNames.Nodup) : out.identifiers.Nodup ↔ p.NamesApart := by
  have hfresh := p.draws_coined
  have hlabels := isLabel_coinAll p.scope p.observes p.elements
    (servingWires p.scope p.reads) (.ofNames p.scope.names)
  -- Copies have one suffix, so their names are the same exactly if their channels are written
  -- alike.
  have hcopies : (p.copied.map (copyName p.scope)).Nodup ↔ ∀ a ∈ p.copied, ∀ b ∈ p.copied,
      normalizeChannel (p.scope.nameOf a) = normalizeChannel (p.scope.nameOf b) → a = b := by
    rw [List.nodup_map_iff_inj_on (copied_nodup p)]
    unfold copyName
    simp only [String.append_left_inj]
  rw [h.identifiers, List.nodup_append, List.nodup_append, List.nodup_append, hcopies]
  constructor
  · rintro ⟨⟨_, _, harrays⟩, ⟨hinj, hunique, _⟩, hapart⟩
    refine ⟨hinj, hunique, fun name hname => ⟨fun id hid heq => ?_, fun hin => ?_⟩,
      fun name hname _ hin => harrays name hname name hin rfl⟩
    · exact hapart name (List.mem_append_left _ hname) _
        (List.mem_append_left _ (List.mem_map_of_mem hid)) heq
    · exact hapart name (List.mem_append_left _ hname) name (List.mem_append_right _ hin) rfl
  · intro hapart
    refine ⟨⟨hdeclared, hfresh.nodup, ?_⟩, ⟨hapart.copies, hapart.labels, ?_⟩, ?_⟩
    · -- A declared name is a name in scope, which the supply knows, or an array.
      rintro name hname _ hin rfl
      by_cases hscope : name ∈ p.scope.names
      · exact hfresh.fresh name hin hscope
      · exact hapart.arrays name hname hscope hin
    · rintro _ hcopy label hlabel heq
      rcases List.mem_map.mp hcopy with ⟨id, _, rfl⟩
      exact copyName_ne_label p.scope id label (hlabels label hlabel) heq
    · rintro name hname other hother rfl
      rcases List.mem_append.mp hname with hname | hin
      · rcases List.mem_append.mp hother with hcopy | hlabel
        · rcases List.mem_map.mp hcopy with ⟨id, hid, heq⟩
          exact (hapart.declared name hname).1 id hid heq.symm
        · exact (hapart.declared name hname).2 hlabel
      · rcases fresh_apart name (hfresh.ends name hin) with ⟨_, hcopy, hlabel⟩
        rcases List.mem_append.mp hother with hother | hother
        · rcases List.mem_map.mp hother with ⟨id, _, heq⟩
          exact hcopy p.scope id heq.symm
        · exact hlabel (hlabels name hother)

end Processes

/-- If a process declares distinct names, then the names of its lowered process
    are distinct exactly if they are apart: channels with copies are written
    differently, instances are named after different channels, and no declared
    name looks like a generated one. The same holds of wires: the instances are
    fed by the serving wires of their reads, and copies serve two reads by the
    same wire exactly if their channels are written alike and as many reads of
    each came before. -/
theorem identifiers_are_distinct_iff (p : Process) (s s' : Session) (out : LoweredProcess)
    (h : lowerProcess p s = .ok out s') (hdeclared : p.declaredNames.Nodup) :
    (out.identifiers.Nodup ↔ p.NamesApart) ∧
      Wired p.scope p.elements (servingWires p.scope p.reads) out.instances ∧
      ∀ (i j : Nat) (a b : ChannelId), p.reads[i]? = some a → p.reads[j]? = some b →
        2 ≤ p.reads.count a → 2 ≤ p.reads.count b →
        ((servingWires p.scope p.reads)[i]? = (servingWires p.scope p.reads)[j]? ↔
          normalizeChannel (p.scope.nameOf a) = normalizeChannel (p.scope.nameOf b) ∧
            (p.reads.take i).count a = (p.reads.take j).count b) := by
  rcases lowerProcess_lowered p s s' out h with ⟨uses, plan, τ, hlow⟩
  refine ⟨(lowerProcess_coins p s s' out h).nodup_iff hdeclared, hlow.wired,
    fun i j a b hi hj ha hb => ?_⟩
  unfold servingWires
  rw [List.getElem?_mapIdx, List.getElem?_mapIdx, hi, hj, Option.map_some, Option.map_some,
    Option.some.injEq]
  unfold servingWire
  rw [if_pos ha, if_pos hb]
  exact copyOutput_eq_iff p.scope a b _ _

/-- Two inputs whose names differ only in a point, each read twice, get two
    copies of one name, and their first readers are served by the same wire. -/
theorem copies_of_similar_inputs_clash :
    let p : Process := ⟨"p", ⟨[⟨"a.b", .int 8, .port .input, 0⟩, ⟨"ab", .int 8, .port .input, 1⟩,
        ⟨"w", .int 8, .port .output, 2⟩, ⟨"x", .int 8, .port .output, 3⟩,
        ⟨"y", .int 8, .port .output, 4⟩, ⟨"z", .int 8, .port .output, 5⟩]⟩,
      [.func ⟨.var 0, none, some 2⟩, .func ⟨.var 0, none, some 3⟩,
        .func ⟨.var 1, none, some 4⟩, .func ⟨.var 1, none, some 5⟩]⟩
    let s : Session := { Session.start false .empty with
      metrics := [("copy_8_2_", ⟨1, 2, 3, 4⟩)] }
    ∃ out s', lowerProcess p s = .ok out s' ∧ p.declaredNames = ["a.b", "ab", "w", "x", "y", "z"] ∧
      out.copies = [⟨"copy<8,2>", "abcopy", ["a.b"]⟩, ⟨"copy<8,2>", "abcopy", ["ab"]⟩] ∧
      out.instances.map Instance.ports = [["abcopy.out[0]", "w"], ["abcopy.out[1]", "x"],
        ["abcopy.out[0]", "y"], ["abcopy.out[1]", "z"]] ∧
      ¬ out.identifiers.Nodup ∧
      p.reads = [0, 0, 1, 1] ∧
      (servingWires p.scope p.reads)[0]? = (servingWires p.scope p.reads)[2]? := by
  intro p s
  have hrun : (match lowerProcess p s with
      | .ok out _ => some (out.copies, out.instances.map Instance.ports)
      | .error _ _ => none) = some ([⟨"copy<8,2>", "abcopy", ["a.b"]⟩,
        ⟨"copy<8,2>", "abcopy", ["ab"]⟩], [["abcopy.out[0]", "w"], ["abcopy.out[1]", "x"],
        ["abcopy.out[0]", "y"], ["abcopy.out[1]", "z"]]) := by decide +kernel
  have hdeclared : p.declaredNames = ["a.b", "ab", "w", "x", "y", "z"] := by decide +kernel
  have hsame : normalizeChannel (p.scope.nameOf 0) = normalizeChannel (p.scope.nameOf 1) := by
    decide +kernel
  cases hlower : lowerProcess p s with
  | error e s' =>
      rw [hlower] at hrun
      cases hrun
  | ok out s' =>
      rw [hlower, Option.some.injEq, Prod.mk.injEq] at hrun
      rcases identifiers_are_distinct_iff p s s' out hlower (by rw [hdeclared]; decide) with
        ⟨hnodup, _, hwires⟩
      refine ⟨out, s', rfl, hdeclared, hrun.1, hrun.2, fun hdistinct => ?_, by decide, ?_⟩
      · have hcopies := (hnodup.mp hdistinct).copies 0 (by decide) 1 (by decide) hsame
        cases hcopies
      · exact (hwires 0 2 0 1 (by decide) (by decide) (by decide) (by decide)).mpr
          ⟨hsame, by decide⟩

end DataflowCircuit
