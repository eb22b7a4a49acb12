import DataflowCircuit.Proofs.Source.Arrays

/-!
# Printed Declarations Are Read Back

Ports, body channels and aliases are written one to a group or line, whatever
way they were declared, so they are read back as declarations of a single name
each. Only the entries matter from there on: the channels of a process are
those of its entries in order, however the entries are grouped.

An alias starts with a name and is only tried once a declaration is refused,
and a channel can be called `chan`. What refuses a declaration then is that no
parenthesis follows.

## Main definitions

* `Entry.Valid`: An entry that can be read.
* `Entry.direction`: The direction an entry is printed with.
* `portText`, `localLine`, `aliasLine`: The texts of declarations.

## Theorems

* `reads_chanType`: A type is read back.
* `declName_run`: A declared name is read back.
* `reads_portList`: A signature is read back.
* `reads_localItem`, `reads_aliasItem`: A line of a body is read back.
-/

namespace DataflowCircuit

namespace Source

open DataflowCircuit.Source.Parser

/-- An entry that can be read: so can its name, and its width fits into a
    word. -/
structure Entry.Valid (e : Entry) : Prop where
  name : e.name.Valid
  width : e.type.width < UInt64.size

/-- The direction that an entry has in a signature. -/
def Entry.direction (e : Entry) : Direction :=
  match e.kind with
  | .port direction => direction
  | _ => .input

section Types

/-- The text of an integer type, mark by mark. -/
theorem toList_int (w : Nat) :
    (ChannelType.int w).text.toList = "int".toList ++ '<' :: (Nat.toDigits 10 w ++ ['>']) := by
  change ("int<" ++ toString w ++ ">").toList = _
  simp

/-- A type is read back. -/
theorem reads_chanType (type : ChannelType) (hwidth : type.width < UInt64.size) (rest : List Char) :
    Reads chanType ('(' :: (type.text.toList ++ ')' :: rest)) (.ok type) rest := by
  have hclose : Reads (literal ")") (')' :: rest) () rest := reads_text ")" ')' rest rfl rfl
  have htype : Reads (intType.orElse boolType) (type.text.toList ++ ')' :: rest) (.ok type)
      (')' :: rest) := by
    cases type with
    | int w =>
        have hassoc : (ChannelType.int w).text.toList ++ ')' :: rest
            = "int".toList ++ '<' :: (Nat.toDigits 10 w ++ '>' :: ')' :: rest) := by
          rw [toList_int]
          simp
        -- The width is followed by its closing mark.
        have hmark : Reads (literal ">") ('>' :: ')' :: rest) () (')' :: rest) :=
          reads_text ">" '>' _ rfl rfl
        have hdigits := reads_bitwidth w ('>' :: ')' :: rest) hwidth (head_cons '>' _ rfl)
        rw [hassoc]
        refine reads_orElse_left ?_
        unfold intType
        exact reads_rule _ (reads_seq (reads_text "int" 'i' _ rfl rfl) (reads_seq
          (reads_text "<" '<' _ rfl rfl) (reads_seq hdigits (reads_return hmark))))
    | bool =>
        -- The other type is tried first and starts differently.
        refine reads_orElse_right (fails_rule _ (fails_bind ?_)) ?_
        · exact fails_text "int" 'i' 'b' _ rfl rfl (by decide)
        · exact reads_rule _ (reads_return (reads_text "bool" 'b' _ rfl rfl))
  unfold chanType
  exact reads_rule _ (reads_seq
    (reads_text "(" '(' _ rfl rfl) (reads_seq htype (reads_return hclose)))

end Types

section Names

/-- A length stands in brackets without gaps. -/
theorem arrayLen_run_eq (cs : List Char) :
    arrayLen.run cs = (literal "[" >>= fun _ => bitwidth >>= fun length => literal "]" >>= fun _ =>
      pure length : Reader (Checked Nat)).run cs := rfl

/-- Without a bracket there is no length. -/
theorem arrayLen_run_none (rest : List Char) (hrest : EndsWord rest) :
    arrayLen.run rest = none := by
  have hopen : ¬ "[".toList <+: rest := by
    rintro ⟨t, ht⟩
    exact (hrest '[' (by rw [← ht]; rfl)).2.2 rfl
  rw [arrayLen_run_eq, bind_run, literal_run_none "[" rest hopen]

/-- A length is read as the number it was written from. -/
theorem arrayLen_run (n : Nat) (hn : n < UInt64.size) (rest : List Char) :
    arrayLen.run ('[' :: (Nat.toDigits 10 n ++ ']' :: rest)) = some (.ok n, rest) := by
  have hopen : (literal "[" : Reader Unit).run ('[' :: (Nat.toDigits 10 n ++ ']' :: rest))
      = some ((), Nat.toDigits 10 n ++ ']' :: rest) := literal_run "[" _
  have hclose : (literal "]" : Reader Unit).run (']' :: rest) = some ((), rest) := literal_run "]" _
  have hdigits := bitwidth_run n (']' :: rest) hn (head_cons ']' rest rfl)
  rw [arrayLen_run_eq, bind_run_some hopen, bind_run_some hdigits, bind_run_some hclose]
  rfl

/-- A declared name is read back. -/
theorem declName_run (d : DeclaredName) (hd : d.Valid) (rest : List Char) (hrest : EndsWord rest) :
    declName.run (d.text.toList ++ rest) = some (.ok d, rest) := by
  -- The parts of a name have no gap between them.
  have hsplit : ∀ cs, declName.run cs = (chanPath >>= fun path =>
      optional arrayLen >>= fun length => pure (do
        let length ← traverseOption id length
        if length = some 0 then throw ⟨.emptyArray, cs.length⟩
        return { path, length } : Checked DeclaredName) : Reader (Checked DeclaredName)).run cs :=
    fun _ => rfl
  rw [hsplit]
  cases hlength : d.length with
  | none =>
      have hpath := path_run d.path.toList rest hd.path
        fun c hc => ⟨(hrest c hc).1, (hrest c hc).2.1⟩
      have hnone : (optional arrayLen).run rest = some (none, rest) := by
        rw [optional_run, arrayLen_run_none rest hrest]
      have hvalue : ⟨d.path, none⟩ = d := by
        rw [← hlength]
      rw [text_none d hlength, bind_run_some hpath, bind_run_some hnone, String.ofList_toList]
      exact congrArg (fun d => some (Except.ok d, rest)) hvalue
  | some n =>
      have hpath := path_run d.path.toList ('[' :: (Nat.toDigits 10 n ++ ']' :: rest)) hd.path
        (head_cons '[' _ (by decide))
      have hvalid := hd.length n hlength
      have hsome : (optional arrayLen).run ('[' :: (Nat.toDigits 10 n ++ ']' :: rest))
          = some (some (.ok n), rest) := by
        rw [optional_run, arrayLen_run n hvalid.2]
      have htext : d.text.toList ++ rest
          = d.path.toList ++ '[' :: (Nat.toDigits 10 n ++ ']' :: rest) := by
        rw [text_some d n hlength, toList_indexed]
        simp
      -- A length of zero would be a flaw, and a valid one is positive.
      have hzero : ¬ some n = some 0 := by
        intro heq
        cases heq
        exact Nat.lt_irrefl 0 hvalid.1
      rw [htext, bind_run_some hpath, bind_run_some hsome, String.ofList_toList]
      have hvalue : ⟨d.path, some n⟩ = d := by
        rw [← hlength]
      change some ((if some n = some 0 then _ else _ : Checked DeclaredName), rest) = _
      rw [if_neg hzero]
      exact congrArg (fun d => some (Except.ok d, rest)) hvalue

/-- Nothing is skipped in front of a declared name. -/
theorem skip_declName (d : DeclaredName) (hd : d.Valid) (rest : List Char) :
    skip (d.text.toList ++ rest) = d.text.toList ++ rest := by
  rcases isPath_cons _ hd.path with ⟨c, cs, hcs, hc⟩
  have hsolid := isSolid_of_isTail c (isTail_of_isHead c hc)
  cases hlength : d.length with
  | none =>
      rw [text_none d hlength, hcs]
      exact skip_isSolid c _ hsolid
  | some n =>
      rw [text_some d n hlength, toList_indexed, hcs]
      exact skip_isSolid c _ hsolid

/-- A list of one declared name is read back. -/
theorem reads_declList (d : DeclaredName) (hd : d.Valid) (rest : List Char) (hrest : EndsWord rest)
    (hcomma : Fails (literal ",") rest) :
    Reads declList (d.text.toList ++ rest) (.ok [d]) rest := by
  have hname : Reads declName (d.text.toList ++ rest) (.ok d) rest := by
    refine reads_of_run rest ?_
    rw [skip_declName d hd rest]
    exact declName_run d hd rest hrest
  -- A list of one name has no further round.
  have hlist : Reads (separated "," declName) (d.text.toList ++ rest) [.ok d] rest :=
    reads_separated "," hname (Rounds.done rest (fails_bind hcomma))
  unfold declList
  exact reads_rule _ (reads_map joined hlist)

end Names

section Signatures

/-- The text of a port. -/
def portText (e : Entry) : String :=
  "chan" ++ Process.directionSymbol e.kind ++ "(" ++ e.type.text ++ ") " ++ e.name.text

/-- The symbol of a port is that of its direction. -/
theorem directionSymbol_eq (e : Entry) :
    Process.directionSymbol e.kind = e.direction.symbol := by
  unfold Process.directionSymbol Entry.direction
  cases e.kind <;> rfl

/-- The text of a port, mark by mark. -/
theorem portText_eq (e : Entry) (rest : List Char) :
    (portText e).toList ++ rest = "chan".toList ++ (e.direction.symbol.toList ++
      '(' :: (e.type.text.toList ++ ')' :: ' ' :: (e.name.text.toList ++ rest))) := by
  unfold portText
  rw [directionSymbol_eq]
  simp

/-- A direction is read from its symbol. -/
theorem reads_portDir (direction : Direction) (rest : List Char) :
    Reads portDir (direction.symbol.toList ++ rest) direction rest := by
  cases direction with
  | input => exact reads_rule _ (reads_orElse_left (reads_return (reads_text "?" '?' rest rfl rfl)))
  | output =>
      have hquestion : Fails (literal "?") ('!' :: rest) :=
        fails_text "?" '?' '!' rest rfl rfl (by decide)
      exact reads_rule _ (reads_orElse_right (fails_bind hquestion)
        (reads_orElse_left (reads_return (reads_text "!" '!' rest rfl rfl))))

/-- A port is read back as a group of its own. -/
theorem reads_portGroup (e : Entry) (he : e.Valid) (rest : List Char) (hrest : EndsWord rest)
    (hcomma : Fails (literal ",") rest) :
    Reads portGroup ((portText e).toList ++ rest) (.ok ⟨e.direction, e.type, [e.name]⟩) rest := by
  have hnames := reads_declList e.name he.name rest hrest hcomma
  have htype := reads_leave_blank ' ' rfl
    (reads_chanType e.type he.width (' ' :: (e.name.text.toList ++ rest)))
  rw [portText_eq]
  unfold portGroup
  exact reads_rule _ (reads_seq (reads_text "chan" 'c' _ rfl rfl)
    (reads_seq (reads_portDir e.direction _) (reads_seq htype (reads_map _ hnames))))

/-- A signature is read back. -/
theorem reads_portList (es : List Entry) (hes : ∀ e ∈ es, e.Valid) (rest : List Char) :
    Reads portList ((String.intercalate "; " (es.map portText)).toList ++ ')' :: rest)
      (.ok (es.map fun e => ⟨e.direction, e.type, [e.name]⟩)) (')' :: rest) := by
  unfold portList
  refine reads_rule _ ?_
  cases es with
  | nil =>
      -- An empty signature has no group, because its parenthesis closes at once.
      have hgroup : Fails (separated ";" portGroup) (')' :: rest) :=
        fails_bind (fails_rule _ (fails_bind (fails_text "chan" 'c' ')' rest rfl rfl (by decide))))
      exact reads_map _ (reads_optional_none (fails_bind hgroup))
  | cons e es =>
      have hitem : ∀ y ∈ e :: es, ∀ r, r = ')' :: rest ∨ (∃ r', r = ";".toList ++ ' ' :: r') →
          Reads portGroup ((portText y).toList ++ r) (.ok ⟨y.direction, y.type, [y.name]⟩) r := by
        intro y hy r hr
        -- A port is followed by the end of the signature or by a semicolon.
        rcases hr with rfl | ⟨r', rfl⟩
        · exact reads_portGroup y (hes y hy) _ (head_cons ')' rest (by decide))
            (fails_text "," ',' ')' rest rfl rfl (by decide))
        · exact reads_portGroup y (hes y hy) _ (endsWord_semicolon _)
            (fails_text "," ',' ';' _ rfl rfl (by decide))
      have hstop : ∀ m d, m.toList.head? = some d → d ≠ ')' → Fails (literal m) (')' :: rest) :=
        fun m d hm hd => fails_text m d ')' rest hm rfl hd
      have hgroups := reads_list ";" ';' rfl rfl (fun e => (portText e).toList)
        (fun e => (.ok ⟨e.direction, e.type, [e.name]⟩ : Checked PortGroup)) e es (')' :: rest)
        hitem (hstop ";" ';' rfl (by decide))
      -- The last semicolon may be left out, and the printer leaves it out.
      have hlist : Reads (do
          let groups ← separated ";" portGroup
          gap
          let _ ← optional (literal ";")
          return groups) ((String.intercalate "; " ((e :: es).map portText)).toList ++ ')' :: rest)
          ((e :: es).map fun e => .ok ⟨e.direction, e.type, [e.name]⟩) (')' :: rest) := by
        rw [toList_intercalate_cons, List.append_assoc]
        exact reads_seq hgroups (reads_return (reads_optional_none (hstop ";" ';' rfl (by decide))))
      rw [← joined_ok]
      exact reads_map _ (reads_optional hlist)

end Signatures

section Bodies

/-- The line of a channel in a body. -/
def localLine (e : Entry) : List Char :=
  ("  chan(" ++ e.type.text ++ ") " ++ e.name.text ++ ";\n").toList

/-- The line of an alias in a body. -/
def aliasLine (a : Alias) : List Char :=
  ("  " ++ a.lhs ++ " = " ++ a.rhs ++ ";\n").toList

/-- A channel of a body is read back as a declaration of its own. -/
theorem reads_localItem (e : Entry) (he : e.Valid) (rest : List Char) :
    Reads bodyItem (localLine e ++ rest) (.ok (.declarations e.type [e.name])) rest ∧
      rest.length < (skip (localLine e ++ rest)).length := by
  have htext : localLine e ++ rest = ' ' :: ' ' :: ("chan".toList ++
      '(' :: (e.type.text.toList ++ ')' :: ' ' ::
        (e.name.text.toList ++ ';' :: '\n' :: rest))) := by
    simp [localLine]
  have hclose : Reads (literal ";") (';' :: '\n' :: rest) () rest :=
    reads_leave_blank '\n' rfl (reads_text ";" ';' _ rfl rfl)
  have hnames := reads_declList e.name he.name (';' :: '\n' :: rest) (endsWord_semicolon _)
    (fails_text "," ',' ';' _ rfl rfl (by decide))
  have htype := reads_leave_blank ' ' rfl
    (reads_chanType e.type he.width (' ' :: (e.name.text.toList ++ ';' :: '\n' :: rest)))
  rw [htext]
  refine ⟨reads_blank ' ' rfl (reads_blank ' ' rfl (reads_rule _ (reads_orElse_left ?_))), ?_⟩
  · unfold chanDecl
    exact reads_rule _ (reads_seq (reads_text "chan" 'c' _ rfl rfl)
      (reads_seq htype (reads_seq hnames (reads_map _ hclose))))
  -- The keyword alone makes the line longer than what is left.
  · rw [skip_space ' ' _ rfl, skip_space ' ' _ rfl, skip_text "chan" 'c' _ rfl rfl]
    simp only [List.length_append, List.length_cons]
    omega

/-- An alias is read back. -/
theorem reads_aliasItem (a : Alias) (hlhs : IsName a.lhs.toList) (hrhs : IsName a.rhs.toList)
    (rest : List Char) :
    Reads bodyItem (aliasLine a ++ rest) (.ok (.alias a)) rest ∧
      rest.length < (skip (aliasLine a ++ rest)).length := by
  have htext : aliasLine a ++ rest = ' ' :: ' ' :: (a.lhs.toList ++
      ' ' :: '=' :: ' ' :: (a.rhs.toList ++ ';' :: '\n' :: rest)) := by
    simp [aliasLine]
  have hclose : Reads (literal ";") (';' :: '\n' :: rest) () rest :=
    reads_leave_blank '\n' rfl (reads_text ";" ';' _ rfl rfl)
  have hleft := reads_chanRef _ (' ' :: '=' :: ' ' :: (a.rhs.toList ++ ';' :: '\n' :: rest))
    hlhs.reference (endsWord_blank _)
  have hright := reads_chanRef _ (';' :: '\n' :: rest) hrhs.reference (endsWord_semicolon _)
  rw [String.ofList_toList] at hleft hright
  -- A name that starts like a declaration is followed by no parenthesis.
  have hdecl : Fails chanDecl
      (a.lhs.toList ++ ' ' :: '=' :: ' ' :: (a.rhs.toList ++ ';' :: '\n' :: rest)) := by
    unfold chanDecl
    refine fails_rule _ (fails_keyword "chan" "(" '(' _ _ _ _
      (fun _ h => fails_rule _ (fails_bind h)) rfl rfl rfl hlhs.reference (endsWord_blank _) ?_)
    exact fails_blank ' ' rfl (fails_text "(" '(' '=' _ rfl rfl (by decide))
  have halias : Reads aliasDecl
      (a.lhs.toList ++ ' ' :: '=' :: ' ' :: (a.rhs.toList ++ ';' :: '\n' :: rest)) a rest := by
    unfold aliasDecl
    refine reads_rule _ (reads_seq hleft (reads_blank ' ' rfl (reads_seq
      (reads_text "=" '=' _ rfl rfl) (reads_blank ' ' rfl (reads_seq hright ?_)))))
    exact reads_return hclose
  rw [htext]
  refine ⟨reads_blank ' ' rfl (reads_blank ' ' rfl (reads_rule _ (reads_orElse_right hdecl
    (reads_orElse_left (reads_map _ halias))))), ?_⟩
  rw [skip_space ' ' _ rfl, skip_space ' ' _ rfl, skip_name _ _ hlhs.reference]
  simp only [List.length_append, List.length_cons]
  omega

/-- No item of a body starts with the dataflow block. -/
theorem fails_bodyItem_dataflow (rest : List Char) :
    Fails bodyItem ("dataflow".toList ++ ' ' :: '\x7b' :: rest) := by
  have hname : IsName "dataflow".toList :=
    ⟨"dataflow".toList, [], (List.append_nil _).symm,
      IsPath.single _ ⟨'d', "ataflow".toList, rfl, rfl, List.all_eq_true.mp rfl⟩, Or.inl rfl⟩
  have href := reads_chanRef _ (' ' :: '\x7b' :: rest) hname.reference (endsWord_blank _)
  have hdecl : Fails chanDecl ("dataflow".toList ++ ' ' :: '\x7b' :: rest) := by
    unfold chanDecl
    exact fails_rule _ (fails_bind (fails_solid 'd' _ rfl rfl))
  -- The keyword is a name as well, and no alias, because its equals sign is missing.
  have halias : Fails aliasDecl ("dataflow".toList ++ ' ' :: '\x7b' :: rest) := by
    unfold aliasDecl
    refine fails_rule _ (fails_seq href (fails_bind ?_))
    exact fails_blank ' ' rfl (fails_text "=" '=' '\x7b' rest rfl rfl (by decide))
  exact fails_rule _ (fails_orElse hdecl (fails_orElse (fails_bind halias) fails_fail))

end Bodies

end Source

end DataflowCircuit
