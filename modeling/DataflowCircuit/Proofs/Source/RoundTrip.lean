import DataflowCircuit.Proofs.Process.Resolved

/-!
# Printing and Reading Are Inverse

A program that was read and resolved is printed as a text that reads and
resolves to the same program. Nothing is left to compare after that: names,
ports, channels with their types and kinds, the root of every name and the
elements are all part of the program, and printing it once more is printing
the same value.

The text of a process is read back as a process that need not be the one it
came from. Declarations are written one by one, aliases lead straight to
roots, and every reference has become the name of a root. `reprint` is the
process that is read, and both processes resolve to the same one, because they
declare the same channels in the same order, their aliases make the same
roots, and the names of roots resolve to roots.

## Main definitions

* `reprint`: The process that the text of a resolved process is read as.

## Theorems

* `reads_process`: A process is read from its parts.
* `reads_process_written`: The text of a process is read back.
* `resolve_reprint`: It resolves to the process that was printed.
* `parse_printProgram`: The text of a program is read back.
* `printed_program_is_read_back`: Printing and reading are inverse.
-/

namespace DataflowCircuit

namespace Source

open DataflowCircuit.Source.Parser

variable (q : DataflowCircuit.Process) (signature body : List Entry)

/-- The aliases that are written for a process. -/
def writtenAliases : List Alias :=
  q.aliasPairs.map fun a => ⟨a.1, a.2⟩

/-- The process that the text of a resolved process is read as. -/
def reprint : CompactProcess where
  name := q.name
  ports := signature.map fun e => ⟨e.direction, e.type, [e.name]⟩
  items := body.map (fun e => .declarations e.type [e.name]) ++ (writtenAliases q).map .alias
  statements := q.elements.map (Element.written q.scope)

section Resolving

variable {q signature body}

/-- A step that keeps every entry keeps the list of them. -/
theorem flatMap_self (f : Entry → List Entry) (es : List Entry) (hf : ∀ e ∈ es, f e = [e]) :
    es.flatMap f = es := by
  induction es with
  | nil => rfl
  | cons e es ih =>
      rw [List.flatMap_cons, hf e List.mem_cons_self, ih fun d hd =>
        hf d (List.mem_cons_of_mem e hd)]
      rfl

/-- The signature that is read has the entries of the one that was printed. -/
theorem portEntries_reprint (hq : Origin q signature body) :
    (reprint q signature body).portEntries = signature := by
  have hmap : (reprint q signature body).portEntries
      = signature.flatMap fun e => [⟨e.name, e.type, .port e.direction⟩] :=
    List.flatMap_map ..
  rw [hmap]
  refine flatMap_self _ signature fun e he => ?_
  have hkind := (hq.ports e he).2
  rcases e with ⟨name, type, kind⟩
  cases kind with
  | port direction => rfl
  | internal => cases hkind
  | synthesized => cases hkind

/-- So has the body, in which aliases declare nothing. -/
theorem localEntries_reprint (hq : Origin q signature body) :
    (reprint q signature body).localEntries = body := by
  have hdeclared :
      (body.map fun e => BodyItem.declarations e.type [e.name]).flatMap BodyItem.entries
        = body := by
    rw [List.flatMap_map]
    refine flatMap_self _ body fun e he => ?_
    rcases e with ⟨name, type, kind⟩
    have hkind : kind = .internal := (hq.locals _ he).2
    -- What the body declares is internal, which is what its declarations are read as.
    rw [hkind]
    rfl
  have haliases : ((writtenAliases q).map BodyItem.alias).flatMap BodyItem.entries = [] := by
    rw [List.flatMap_map]
    exact List.flatMap_eq_nil_iff.mpr fun _ _ => rfl
  change List.flatMap BodyItem.entries (_ ++ _) = body
  rw [List.flatMap_append, hdeclared, haliases, List.append_nil]

/-- And the aliases that are read are those that were written. -/
theorem aliases_reprint : (reprint q signature body).expand.aliases = writtenAliases q := by
  have hdeclared : (body.map fun e => BodyItem.declarations e.type [e.name]).filterMap
      BodyItem.alias? = [] := by
    rw [List.filterMap_map]
    exact List.filterMap_eq_nil_iff.mpr fun _ _ => rfl
  have haliases : ((writtenAliases q).map BodyItem.alias).filterMap BodyItem.alias?
      = writtenAliases q := by
    rw [List.filterMap_map]
    exact List.filterMap_some
  change List.filterMap BodyItem.alias? (_ ++ _) = writtenAliases q
  rw [List.filterMap_append, hdeclared, haliases, List.nil_append]

/-- The process that is read resolves to the process that was printed. -/
theorem resolve_reprint (hq : Origin q signature body) :
    (reprint q signature body).expand.resolve = .ok q := by
  rcases hq.declared with ⟨s₀, hdeclare, hfresh, hsame⟩
  have hchannels :
      (reprint q signature body).expand.channels = expandEntries (signature ++ body) := by
    rw [channels_expand, portEntries_reprint hq, localEntries_reprint hq]
  have haliases : (reprint q signature body).expand.aliases.map (fun a => (a.lhs, a.rhs))
      = q.scope.aliasesBelow q.scope.size := by
    rw [aliases_reprint]
    unfold writtenAliases
    rw [List.map_map]
    exact List.map_id' _
  -- The written elements name roots, and names of roots resolve to roots.
  have hstatements : traverseList (Statement.resolve q.scope)
      (reprint q signature body).expand.statements = .ok q.elements := by
    change traverseList (Statement.resolve q.scope) (q.elements.map (Element.written q.scope)) = _
    have hwalk := traverseList_eq_map (Statement.resolve q.scope ∘ Element.written q.scope) id
      q.elements fun el hel => resolve_written_element q.scope hq.sound el (hq.elements el hel)
    rw [List.map_id] at hwalk
    rw [traverseList_map, hwalk]
  -- There is nothing left to be made canonical.
  have hfinish : q.elements.map (Element.map q.scope.canonical (Expr.map q.scope.canonical))
      = q.elements := by
    rw [List.map_congr_left fun el hel =>
      resolved_canonical q.scope el (hq.elements el hel), List.map_id']
  unfold Process.resolve
  rw [hchannels, hdeclare]
  change (s₀.connectAll _ >>= _) = _
  -- The declarations leave every channel on its own, and the aliases rebuild the roots.
  rw [haliases, Scope.connectAll_aliases q.scope s₀ hq.sound hfresh hsame]
  change (traverseList _ _ >>= _) = _
  rw [hstatements]
  change Except.ok (Process.finish q.name q.scope q.elements) = .ok q
  unfold Process.finish
  rw [hfinish]

end Resolving

section Reading

variable {q signature body}

/-- The signature is written entry by entry. -/
theorem printPorts_eq (hq : Origin q signature body) :
    q.printPorts = String.intercalate "; " (signature.map portText) := by
  -- Gathering finds the entries again, whatever arrays there are.
  have hgrouped := grouped_entries q.scope q.ports signature (fun e he => (hq.ports e he).1.name)
    (map_info_ports hq) (nodup_of_origin hq).1
  have htext := congrArg (List.map fun x : String × ChannelType × ChannelKind =>
    "chan" ++ Process.directionSymbol x.2.2 ++ "(" ++ x.2.1.text ++ ") " ++ x.1) hgrouped
  rw [List.map_map, List.map_map] at htext
  unfold Process.printPorts
  exact congrArg (String.intercalate "; ") htext

/-- The other channels are written entry by entry. -/
theorem printLocals_eq (hq : Origin q signature body) :
    (String.join ((Process.grouped q.scope q.locals).map fun (name, c) =>
      "  chan(" ++ c.type.text ++ ") " ++ name ++ ";\n")).toList = body.flatMap localLine := by
  have hgrouped := grouped_entries q.scope q.locals body (fun e he => (hq.locals e he).1.name)
    (map_info_locals hq) (nodup_of_origin hq).2
  have htext := congrArg (List.map fun x : String × ChannelType × ChannelKind =>
    "  chan(" ++ x.2.1.text ++ ") " ++ x.1 ++ ";\n") hgrouped
  rw [List.map_map, List.map_map] at htext
  rw [String.toList_join]
  refine (congrArg (List.flatMap String.toList) htext).trans ?_
  rw [List.flatMap_map]
  rfl

/-- Aliases are written line by line. -/
theorem printAliases_eq :
    (String.join (q.aliasPairs.map fun (name, root) =>
      "  " ++ name ++ " = " ++ root ++ ";\n")).toList = (writtenAliases q).flatMap aliasLine := by
  unfold writtenAliases
  rw [String.toList_join, List.flatMap_map, List.flatMap_map]
  rfl

/-- So are elements. -/
theorem printElements_eq (s : Scope) (els : List (Element ChannelId DataflowCircuit.Expr)) :
    (String.join (els.map fun el => "    " ++ el.print s ++ el.terminator ++ "\n")).toList
      = els.flatMap (elementLine s) := by
  rw [String.toList_join, List.flatMap_map]
  refine congrArg (List.flatMap · els) (funext fun el => ?_)
  simp only [elementLine, elementChars, String.toList_append, List.append_assoc]
  rfl

/-- The text of a process from its name on. -/
theorem print_eq (hq : Origin q signature body) (rest : List Char) :
    q.print.toList ++ rest = "defproc".toList ++ ' ' :: (q.name.toList ++ '(' ::
      ((String.intercalate "; " (signature.map portText)).toList ++ ')' :: ' ' :: '\x7b' :: '\n' ::
        (body.flatMap localLine ++ ((writtenAliases q).flatMap aliasLine ++ ' ' :: ' ' ::
          ("dataflow".toList ++ ' ' :: '\x7b' :: '\n' ::
            (q.elements.flatMap (elementLine q.scope) ++
              ' ' :: ' ' :: '\x7d' :: '\n' :: '\x7d' :: rest)))))) := by
  have hopen : "defproc ".toList = "defproc".toList ++ [' '] := by decide
  have hbody : ") \x7b\n".toList = [')', ' ', '\x7b', '\n'] := by decide
  have hdataflow : "  dataflow \x7b\n".toList
      = ' ' :: ' ' :: ("dataflow".toList ++ [' ', '\x7b', '\n']) := by decide
  have hclose : "  \x7d\n\x7d".toList = [' ', ' ', '\x7d', '\n', '\x7d'] := by decide
  have hparen : "(".toList = ['('] := by decide
  unfold Process.print
  rw [printPorts_eq hq]
  simp only [String.toList_append, printLocals_eq hq, printAliases_eq, printElements_eq, hopen,
    hbody, hdataflow, hclose, hparen, List.append_assoc, List.cons_append, List.nil_append]

/-- Both sides of a written alias can be read as names. -/
theorem named_aliases (hq : Origin q signature body) :
    ∀ a ∈ writtenAliases q, IsName a.lhs.toList ∧ IsName a.rhs.toList := by
  intro a ha
  rcases List.mem_map.mp ha with ⟨pair, hpair, rfl⟩
  rcases List.mem_map.mp hpair with ⟨id, hid, rfl⟩
  have hlt : id < q.scope.size := List.mem_range.mp (List.mem_filter.mp hid).1
  rcases q.scope.channel_of_lt id hlt with ⟨c, hc⟩
  rcases hq.sound.root_root id c hc with ⟨d, hd, _⟩
  refine ⟨named_of_origin hq id hlt, named_of_origin hq (q.scope.canonical id) ?_⟩
  rw [q.scope.canonical_eq id c hc]
  exact (List.getElem?_eq_some_iff.mp hd).1

/-- The elements of a resolved process can be read back. -/
theorem readable_elements (hq : Origin q signature body) :
    ∀ el ∈ q.elements, el.Readable q.scope :=
  fun el hel => readable_element q.scope (fun id hid => named_of_origin hq id hid.1) el
    (hq.elements el hel)

/-- No element is longer than the text of its process. -/
theorem length_element_le (hq : Origin q signature body) :
    ∀ el ∈ q.elements, (elementChars q.scope el).length ≤ q.print.toList.length := by
  intro el hel
  have hlen := congrArg List.length (print_eq hq [])
  -- The fuel of a text covers every element in it.
  have hline := length_le_flatMap (elementLine q.scope) el q.elements hel
  have hel : (elementChars q.scope el).length ≤ (elementLine q.scope el).length := by
    unfold elementLine
    simp only [List.length_append]
    omega
  rw [List.append_nil] at hlen
  rw [hlen]
  simp only [List.length_append, List.length_cons]
  omega

/-- The items of a body are read back in rounds. -/
theorem rounds_items (hq : Origin q signature body) (rest : List Char) :
    Rounds bodyItem (body.flatMap localLine ++ ((writtenAliases q).flatMap aliasLine ++
      ' ' :: ' ' :: ("dataflow".toList ++ ' ' :: '\x7b' :: rest)))
      ((reprint q signature body).items.map .ok)
      (' ' :: ' ' :: ("dataflow".toList ++ ' ' :: '\x7b' :: rest)) := by
  -- The keyword of the dataflow block ends the items.
  have hstop := fails_blank ' ' rfl (fails_blank ' ' rfl (fails_bodyItem_dataflow rest))
  have haliases := rounds_flatMap aliasLine (fun a => (.ok (.alias a) : Checked BodyItem))
    (writtenAliases q) (fun a ha r => reads_aliasItem a (named_aliases hq a ha).1
      (named_aliases hq a ha).2 r) (Rounds.done _ hstop)
  -- The rounds are put together from the end of the text.
  have hlocals := rounds_flatMap localLine
    (fun e => (.ok (.declarations e.type [e.name]) : Checked BodyItem)) body
    (fun e he r => reads_localItem e (hq.locals e he).1 r) haliases
  have hitems : (reprint q signature body).items.map (Except.ok : BodyItem → Checked BodyItem)
      = body.map (fun e => .ok (.declarations e.type [e.name])) ++
        ((writtenAliases q).map (fun a => .ok (.alias a)) ++ []) := by
    change (_ ++ _ : List BodyItem).map Except.ok = _
    rw [List.map_append, List.map_map, List.map_map, List.append_nil]
    rfl
  rw [hitems]
  exact hlocals

/-- A process is read from its parts. -/
theorem reads_process {cs cs₁ cs₂ cs₃ cs₄ cs₅ cs₆ cs₇ cs₈ rest : List Char} (fuel : Nat)
    (p : CompactProcess) (hopen : Reads (literal "defproc") cs () cs₁)
    (hname : Reads identifier cs₁ p.name cs₂) (hparen : Reads (literal "(") cs₂ () cs₃)
    (hports : Reads portList cs₃ (.ok p.ports) cs₄) (hparen' : Reads (literal ")") cs₄ () cs₅)
    (hbrace : Reads (literal "\x7b") cs₅ () cs₆)
    (hitems : Rounds bodyItem cs₆ (p.items.map .ok) cs₇)
    (hdataflow : Reads (dataflow fuel) cs₇ (.ok p.statements) cs₈)
    (hclose : Reads (literal "\x7d") cs₈ () rest) :
    Reads (process fuel) cs (.ok p) rest := by
  have hvalue : (do
      let ports ← (.ok p.ports : Checked (List PortGroup))
      let statements ← (.ok p.statements : Checked (List Statement))
      let items ← joined (p.items.map .ok)
      return ⟨p.name, ports, items, statements⟩ : Checked CompactProcess) = .ok p := by
    rw [joined_map_ok]
    rfl
  unfold process
  refine reads_rule _ (reads_seq hopen (reads_seq hname (reads_seq hparen (reads_seq hports ?_))))
  refine reads_seq hparen' (reads_seq hbrace (reads_seq (reads_repeated hitems) ?_))
  rw [← hvalue]
  exact reads_seq hdataflow (reads_return hclose)

/-- The text of a process is read back. -/
theorem reads_process_written (hq : Origin q signature body) (fuel : Nat)
    (hfuel : q.print.toList.length ≤ fuel) (rest : List Char) :
    Reads (process fuel) (q.print.toList ++ rest) (.ok (reprint q signature body)) rest ∧
      rest.length < (skip (q.print.toList ++ rest)).length := by
  have hname : ∀ r, Reads identifier (' ' :: (q.name.toList ++ '(' :: r)) q.name ('(' :: r) := by
    intro r
    have hread := reads_identifier q.name.toList ('(' :: r) hq.name (head_cons '(' r rfl)
    rw [String.ofList_toList] at hread
    exact reads_blank ' ' rfl hread
  have hparen : ∀ r, Reads (literal "(") ('(' :: r) () r := fun r => reads_text "(" '(' r rfl rfl
  have hparen' : ∀ r, Reads (literal ")") (')' :: r) () r := fun r => reads_text ")" ')' r rfl rfl
  have hbrace : ∀ r, Reads (literal "\x7b") (' ' :: '\x7b' :: '\n' :: r) () r := fun r =>
    reads_blank ' ' rfl (reads_leave_blank '\n' rfl (reads_text "\x7b" '\x7b' ('\n' :: r) rfl rfl))
  -- The fuel for the text of the process is enough for each of its elements.
  have hdataflow := reads_dataflow_written q.scope fuel q.elements (readable_elements hq)
    (fun el hel => Nat.le_trans (length_element_le hq el hel) hfuel) ('\n' :: '\x7d' :: rest)
  have hclose : Reads (literal "\x7d") ('\n' :: '\x7d' :: rest) () rest :=
    reads_blank '\n' rfl (reads_text "\x7d" '\x7d' rest rfl rfl)
  rw [print_eq hq]
  refine ⟨?_, ?_⟩
  · exact reads_process fuel (reprint q signature body) (reads_text "defproc" 'd' _ rfl rfl)
      (hname _) (hparen _) (reads_portList signature (fun e he => (hq.ports e he).1) _) (hparen' _)
      (hbrace _) (rounds_items hq _) (reads_blank ' ' rfl (reads_blank ' ' rfl hdataflow)) hclose
  · rw [skip_text "defproc" 'd' _ rfl rfl]
    simp only [List.length_append, List.length_cons]
    omega

end Reading

section Programs

/-- A resolved process and the process that its text is read as. -/
def Rewritten (q : DataflowCircuit.Process) (p : CompactProcess) : Prop :=
  ∃ signature body, Origin q signature body ∧ p = reprint q signature body

/-- The processes that the texts of resolved processes are read as resolve
    like the processes that were read first. -/
theorem exists_rewritten (taken : List String) (ps : List CompactProcess)
    (hps : ∀ p ∈ ps, p.Accepted) (qs : DataflowCircuit.Program)
    (h : Program.resolveFrom taken (ps.map CompactProcess.expand) = .ok qs) :
    ∃ xs : List (DataflowCircuit.Process × CompactProcess),
      xs.map Prod.fst = qs ∧ (∀ x ∈ xs, Rewritten x.1 x.2) ∧
        Program.resolveFrom taken (xs.map fun x => x.2.expand) = .ok qs := by
  induction ps generalizing taken qs with
  | nil =>
      cases h
      exact ⟨[], rfl, fun x hx => absurd hx List.not_mem_nil, rfl⟩
  | cons p ps ih =>
      rw [List.map_cons, Program.resolveFrom] at h
      split at h
      · cases h
      · rename_i hnew
        rcases except_bind_ok_iff.mp h with ⟨q, hq, h₁⟩
        rcases except_bind_ok_iff.mp h₁ with ⟨rest, hrest, h₂⟩
        cases h₂
        rcases origin_of_resolve p (hps p List.mem_cons_self) q hq with ⟨horigin, hname⟩
        -- Names of processes are compared with those that came before, so the taken names are
        -- general.
        rcases ih (p.name :: taken) (fun p' hp' => hps p' (List.mem_cons_of_mem p hp')) rest
          hrest with ⟨xs, hxs, hrewritten, hresolve⟩
        -- The name of the process is as new to the second reading as to the first.
        have hhead : (reprint q p.portEntries p.localEntries).expand.name = p.name := hname
        have hfresh : p.name ∉ taken := hnew
        refine ⟨(q, reprint q p.portEntries p.localEntries) :: xs, ?_, ?_, ?_⟩
        · rw [List.map_cons, hxs]
        · intro x hx
          rcases List.mem_cons.mp hx with rfl | hx
          · exact ⟨p.portEntries, p.localEntries, horigin, rfl⟩
          · exact hrewritten x hx
        · rw [List.map_cons, Program.resolveFrom, hhead, if_neg hfresh, resolve_reprint horigin]
          change (Program.resolveFrom (p.name :: taken) _ >>= _) = _
          rw [hresolve]
          rfl

/-- A program is its processes, each with a line feed behind it. -/
theorem toList_printProgram (qs : DataflowCircuit.Program) :
    (printProgram qs).toList = qs.flatMap fun q => q.print.toList ++ ['\n'] := by
  unfold printProgram
  rw [String.toList_join, List.flatMap_map]
  refine congrArg (List.flatMap · qs) (funext fun q => ?_)
  rw [String.toList_append]
  rfl

/-- A file is read to its end in rounds. -/
theorem file_run (fuel : Nat) (cs : List Char) (ps : List (Checked CompactProcess))
    (h : Rounds (process fuel) cs ps []) : ∃ r, (file fuel).run cs = some (joined ps, r) := by
  have hend : Reads endOfInput [] () [] := by
    refine reads_of_run [] ?_
    rw [skip]
    rfl
  have hread : Reads (repeated (process fuel) >>= fun processes => gap >>= fun _ =>
      endOfInput >>= fun _ => pure (joined processes)) cs (joined ps) [] :=
    reads_seq (reads_repeated h) (reads_return hend)
  rcases hread with ⟨r, hrun, _⟩
  exact ⟨r, hrun⟩

/-- No process starts where the text has ended. -/
theorem fails_process_end (fuel : Nat) : Fails (process fuel) [] := by
  unfold process
  refine fails_rule _ (fails_bind ?_)
  unfold Fails
  rw [skip]
  rfl

/-- A text that is read to its end in rounds is the program of these rounds. -/
theorem parse_of_rounds (text : String) (ps : List CompactProcess)
    (h : ∀ fuel, text.toList.length ≤ fuel →
      Rounds (process fuel) text.toList (ps.map .ok) []) :
    parse text = .ok (ps.map CompactProcess.expand) := by
  rcases file_run _ _ _ (h _ (Nat.le_succ _)) with ⟨r, hrun⟩
  rw [joined_map_ok] at hrun
  unfold parse
  simp only [hrun]

/-- The text of a program is read back. -/
theorem parse_printProgram (xs : List (DataflowCircuit.Process × CompactProcess))
    (hxs : ∀ x ∈ xs, Rewritten x.1 x.2) :
    parse (printProgram (xs.map Prod.fst)) = .ok (xs.map fun x => x.2.expand) := by
  have htext : (printProgram (xs.map Prod.fst)).toList
      = xs.flatMap fun x => x.1.print.toList ++ ['\n'] := by
    rw [toList_printProgram, List.flatMap_map]
  have hmap : (xs.map Prod.snd).map CompactProcess.expand = xs.map fun x => x.2.expand := by
    rw [List.map_map]
    rfl
  rw [← hmap]
  refine parse_of_rounds _ _ fun fuel hfuel => ?_
  -- Each process is read whatever follows it, with fuel for the whole text.
  have hflat := rounds_flatMap (fun x : DataflowCircuit.Process × CompactProcess =>
    x.1.print.toList ++ ['\n']) (fun x => (.ok x.2 : Checked CompactProcess)) xs (p := process fuel)
    (by
      intro x hx r
      rcases hxs x hx with ⟨signature, body, horigin, hreprint⟩
      have hlen := length_le_flatMap (fun x : DataflowCircuit.Process × CompactProcess =>
        x.1.print.toList ++ ['\n']) x xs hx
      rw [← htext, List.length_append] at hlen
      have hread := reads_process_written horigin fuel (by omega) ('\n' :: r)
      rw [List.append_assoc, hreprint]
      refine ⟨reads_leave_blank '\n' rfl hread.1, Nat.lt_trans ?_ hread.2⟩
      exact Nat.lt_succ_self _) (Rounds.done [] (fails_process_end fuel))
  rw [List.append_nil, List.append_nil] at hflat
  rw [htext, List.map_map]
  exact hflat

/-- A text denotes processes that can be the result of reading. -/
theorem accepted_of_parse (text : String) (written : Program) (h : parse text = .ok written) :
    ∃ ps : List CompactProcess, written = ps.map CompactProcess.expand ∧ ∀ p ∈ ps, p.Accepted := by
  unfold parse at h
  simp only [] at h
  split at h
  · rename_i ps rest hrun
    cases h
    exact ⟨ps, rfl, yields_file _ _ _ _ hrun ps rfl⟩
  · cases h
  · cases h

/-- Printing and reading are inverse: the text of a program that was read and
    resolved is accepted, and reads and resolves to the same program, with the
    same processes in order and with their names, ports, channels, types, kinds,
    roots and elements. Printing that program is then printing the same text. -/
theorem printed_program_is_read_back (text : String) (written : Program)
    (program : DataflowCircuit.Program) (hparse : parse text = .ok written)
    (hresolve : written.resolve = .ok program) :
    ∃ written', parse (printProgram program) = .ok written' ∧ written'.resolve = .ok program := by
  rcases accepted_of_parse text written hparse with ⟨ps, rfl, hps⟩
  rcases exists_rewritten [] ps hps program hresolve with ⟨xs, rfl, hxs, hresolve'⟩
  refine ⟨xs.map fun x : DataflowCircuit.Process × CompactProcess => x.2.expand, ?_, hresolve'⟩
  exact parse_printProgram xs hxs

/-- A signature whose channels are called `int` and `chan`, an array with a
    chain of aliases, and an expression that depends on precedence. -/
def keywordNames : String :=
  "defproc p(chan?(bool)chan,int;chan!(bool)x,y)\x7bchan(bool)z[2];z[1]=z[0];z[0]=y;" ++
    "dataflow\x7b\x7bchan\x7dint->z[1],*;int*-int-1->[2,0x0]x;\x7d\x7d"

/-- The process that this text denotes: the channels of its signature and its
    array, both of whose entries are on the wire of `y`, a split, and a buffered
    function. -/
def keywordProcess : DataflowCircuit.Process where
  name := "p"
  scope := ⟨[⟨"chan", .bool, .port .input, 0⟩, ⟨"int", .bool, .port .input, 1⟩,
    ⟨"x", .bool, .port .output, 2⟩, ⟨"y", .bool, .port .output, 3⟩,
    ⟨"z[0]", .bool, .internal, 3⟩, ⟨"z[1]", .bool, .internal, 3⟩]⟩
  elements := [.split 0 1 [some 3, none],
    .func ⟨.binary .minus (.binary .mul (.var 1) (.unary .neg (.var 1))) (.const 1),
      some ⟨2, some (.const 0)⟩, some 2⟩]

/-- The text is read, and so is the program that it denotes once it is printed.
    -/
theorem keyword_names_are_read_back :
    ∃ written written', parse keywordNames = .ok written ∧
      written.resolve = .ok [keywordProcess] ∧
      parse (printProgram [keywordProcess]) = .ok written' ∧
      written'.resolve = .ok [keywordProcess] := by
  -- Reading and resolving are run once, and the results are taken apart below.
  have hrun : (parse keywordNames >>= Program.resolve).toOption = some [keywordProcess] := by
    decide +kernel
  cases hparse : parse keywordNames with
  | error e =>
      rw [hparse] at hrun
      cases hrun
  | ok written =>
      rw [hparse] at hrun
      have hresolve : written.resolve = .ok [keywordProcess] := by
        cases hresolve : written.resolve with
        | error e =>
            change written.resolve.toOption = some [keywordProcess] at hrun
            rw [hresolve] at hrun
            cases hrun
        | ok program =>
            change written.resolve.toOption = some [keywordProcess] at hrun
            rw [hresolve] at hrun
            rw [Option.some.inj hrun]
      rcases printed_program_is_read_back keywordNames written _ hparse hresolve with
        ⟨written', hparse', hresolve'⟩
      exact ⟨written, written', rfl, hresolve, hparse', hresolve'⟩

end Programs

end Source

end DataflowCircuit
