import DataflowCircuit.Proofs.Emit.SharedTemplates

/-!
# Naming as a Whole

A run asks for many template names, and each answer depends on what was asked
before: the first body under a name gets the name, and every other body gets it
with its fingerprint added. The renamed bodies are entered into the same table,
so an answer could also depend on an entry that a renaming made.

It does not, because no name that pieces spell is a hashed name: the last piece
of a hashed name starts with an `h`, and no piece that lowering pushes does.
Read off the table at the end, which keeps every entry that was ever made, the
answers are therefore one function of name and fingerprint, and that function is
injective. Nothing is assumed about the table at the start.

## Main definitions

* `NameToken.Pushed`: A piece that lowering pushes.
* `Cache.disambiguateAll`: Asking for names one after another.
* `Cache.firstUnder`: The fingerprint that comes first under a name.

## Theorems

* `pushed_gatherUnit`: The pieces of a gathered name are pushed ones.
* `not_isHashed_unitName`: No pushed pieces spell a hashed name.
* `templateName_eq_iff`: Template names of one table are injective.
* `disambiguateAll_answers`, `lookup_disambiguateAll`: The answers and the table
  after a sequence of questions.
* `disambiguation_injective`: Equal answers are given for equal names and equal
  fingerprints only.
-/

namespace DataflowCircuit

/-- A piece that lowering pushes: that of an operation, or one of those that
    follow the operations of a member. -/
inductive NameToken.Pushed : NameToken → Prop where
  | operation (op : Operation) : Pushed op.token
  | init (value : Nat) : Pushed (.init value)
  | width (bits : Nat) : Pushed (.width bits)
  | member (position : Nat) : Pushed (.member position)

/-- A digit is no letter. -/
theorem head_ne_of_isDigit (c d : Char) (hc : c.isDigit = true) (hd : d.isDigit = false) :
    c ≠ d := by
  rintro rfl
  rw [hd] at hc
  cases hc

section Pieces

/-- What starts with an operand does not start with an `h`. -/
theorem Operand.mnemonic_head_ne (o : Operand) (rest : List Char) :
    (o.mnemonic.toList ++ rest).head? ≠ some 'h' := by
  rcases o.mnemonic_head rest with ⟨c, cs, hcs, hhead⟩
  rw [hcs, List.head?_cons, ne_eq, Option.some.injEq]
  rcases hhead with hdigit | rfl | rfl
  · exact head_ne_of_isDigit c 'h' hdigit rfl
  · decide
  · decide

/-- Only fingerprints are spelled with an `h` in front. -/
theorem NameToken.Pushed.head_ne {t : NameToken} (ht : t.Pushed) : t.piece.head? ≠ some 'h' := by
  cases ht with
  | operation op =>
      cases op with
      | binary op l r => exact l.mnemonic_head_ne _
      | unary op x => cases op <;> exact fun h => absurd (Option.some.inj h) (by decide)
      | select x y z => exact y.mnemonic_head_ne _
      | forward x => exact fun h => absurd (Option.some.inj h) (by decide)
  | init value => exact fun h => absurd (Option.some.inj h) (by decide)
  | width bits =>
      rcases Text.toDigits_head bits with ⟨c, cs, hcs, hdigit⟩
      rw [piece, hcs, List.head?_cons, ne_eq, Option.some.injEq]
      exact head_ne_of_isDigit c 'h' hdigit rfl
  | member position => exact fun h => absurd (Option.some.inj h) (by decide)

/-- Pushed pieces are proper ones. -/
theorem NameToken.Pushed.proper {t : NameToken} (ht : t.Pushed) : t.Proper := by
  cases ht with
  | operation op => exact fun _ => ⟨op, rfl⟩
  | init value => exact fun h => absurd h Bool.false_ne_true
  | width bits => exact fun h => absurd h Bool.false_ne_true
  | member position => exact fun h => absurd h Bool.false_ne_true

/-- No pushed pieces spell a hashed name. -/
theorem not_isHashed_unitName (ts : List NameToken) (hts : ∀ t ∈ ts, t.Pushed) :
    ¬ IsHashed (unitName ts) := by
  rintro ⟨plain, fp, h⟩
  have hlist := congrArg String.toList h
  rw [unitName_toList, hashedName_toList] at hlist
  rcases List.eq_nil_or_concat ts with rfl | ⟨us, t, rfl⟩
  · -- Without pieces there is no mark at all.
    have hmark : '_' ∈ ['f', 'u', 'n', 'c'] := by
      rw [List.map_nil, List.flatMap_nil, List.append_nil] at hlist
      rw [hlist]
      exact List.mem_append_right _ List.mem_cons_self
    exact absurd hmark (by decide)
  -- The last piece would be the hash, and no pushed piece starts with its letter.
  · have ht : t.Pushed := hts t (by simp)
    have hcut := cutLast_unique '_' (['f', 'u', 'n', 'c'] ++ (us.map NameToken.piece).flatMap
      ('_' :: ·)) _ t.piece _ (notMem_of_isAlphanum '_' (by decide) _
        (t.isAlphanum_piece ht.proper)) (underscore_notMem_hash fp.toNat) (by simpa using hlist)
    exact ht.head_ne (by rw [hcut.2]; rfl)

/-- The pieces that follow the operations of a member are pushed ones. -/
theorem pushed_memberTokens (clustered : Bool) (position width : Nat) (init : Option Nat) :
    ∀ t ∈ Lowering.memberTokens clustered position width init, t.Pushed := by
  intro t ht
  simp only [Lowering.memberTokens, List.mem_append, List.mem_singleton] at ht
  rcases ht with (ht | rfl) | ht
  · cases init with
    | none => exact absurd ht List.not_mem_nil
    | some v =>
        rw [List.mem_singleton.mp ht]
        exact .init v
  · exact .width width
  · cases clustered with
    | false => exact absurd ht List.not_mem_nil
    | true =>
        rw [List.mem_singleton.mp ht]
        exact .member position

/-- Gathering members pushes no other piece. -/
theorem pushed_gatherUnit (s : Scope) (element : String) (clustered : Bool) (position : Nat)
    (fs : List (Func ChannelId Expr)) (b b' : UnitBuilder) (outs outs' : List UnitOutput)
    (h : Lowering.gatherUnit s element clustered position fs b outs = some (b', outs'))
    (hb : ∀ t ∈ b.name, t.Pushed) : ∀ t ∈ b'.name, t.Pushed := by
  induction fs generalizing position b outs with
  | nil =>
      cases h
      exact hb
  | cons f fs ih =>
      rcases Lowering.gatherUnit_cons h with
        ⟨v, _, h⟩ | ⟨out, width, result, b₁, _, _, _, hlower, h⟩
      · exact ih _ b outs h hb
      -- The body pushes operations, and the member what follows them.
      · have hbuilder := Expr.lowerOutput_invariant s element
          (fun b => ∀ t ∈ b.name, t.Pushed) (fun _ _ _ _ hb => hb)
          (fun b op w hb => List.forall_mem_append.mpr
            ⟨hb, List.forall_mem_singleton.mpr (.operation op)⟩)
          f.expr width result b b₁ hlower hb
        exact ih _ _ _ h (List.forall_mem_append.mpr
          ⟨hbuilder, pushed_memberTokens clustered position width _⟩)

end Pieces

section Answers

/-- A hashed name says which name was hashed and with which fingerprint. -/
theorem hashedName_inj (name name' : String) (fp fp' : UInt64)
    (h : Cache.hashedName name fp = Cache.hashedName name' fp') : name = name' ∧ fp = fp' := by
  refine ⟨?_, hashedName_fingerprint name name' fp fp' h⟩
  have hlist := congrArg String.toList h
  rw [hashedName_toList, hashedName_toList] at hlist
  exact String.toList_injective (cutLast_unique '_' _ _ _ _ (underscore_notMem_hash _)
    (underscore_notMem_hash _) hlist).1

/-- Under one table, template names tell names and fingerprints apart. -/
theorem templateName_eq_iff (T : Bodies) (name name' : String) (fp fp' : UInt64)
    (hname : ¬ IsHashed name) (hname' : ¬ IsHashed name') :
    T.templateName name fp = T.templateName name' fp' ↔ name = name' ∧ fp = fp' := by
  refine ⟨fun h => ?_, fun h => by rw [h.1, h.2]⟩
  unfold Bodies.templateName at h
  -- Each name is answered plain or hashed, and the two kinds never meet.
  by_cases hT : T.lookup name = some fp
  · by_cases hT' : T.lookup name' = some fp'
    · -- Both names are plain, and a name stands for one fingerprint.
      rw [if_pos hT, if_pos hT'] at h
      rw [h, hT', Option.some.injEq] at hT
      exact ⟨h, hT.symm⟩
    · rw [if_pos hT, if_neg hT'] at h
      exact absurd ⟨_, _, h⟩ hname
  · by_cases hT' : T.lookup name' = some fp'
    · rw [if_neg hT, if_pos hT'] at h
      exact absurd ⟨_, _, h.symm⟩ hname'
    · rw [if_neg hT, if_neg hT'] at h
      exact hashedName_inj name name' fp fp' h

end Answers

namespace Cache

/-- Ask for the template names of bodies one after another. Each question is a
    name and a body. -/
def disambiguateAll : Cache → List (String × String) → List String × Cache
  | c, [] => ([], c)
  | c, (name, body) :: rest =>
    let answer := c.disambiguate name body
    let answers := answer.2.1.disambiguateAll rest
    (answer.1 :: answers.1, answers.2)

/-- The fingerprint that comes first under a name: the one in the table, or that
    of the first question with the name. -/
def firstUnder (c : Cache) (questions : List (String × String)) (name : String) :
    Option UInt64 :=
  (c.bodies.lookup name).or
    ((questions.find? (·.1 = name)).map fun question => Text.fingerprint question.2)

/-- Fingerprints stay with their names. -/
theorem disambiguateAll_keeps (c : Cache) (questions : List (String × String)) :
    Bodies.Keeps c.bodies (c.disambiguateAll questions).2.bodies := by
  induction questions generalizing c with
  | nil => exact Bodies.Keeps.refl _
  | cons question rest ih =>
      have hstep : Bodies.Keeps c.bodies (c.disambiguate question.1 question.2).2.1.bodies := by
        rw [disambiguate_bodies]
        exact Bodies.note_keeps _ _ _
      exact hstep.trans (ih _)

/-- All answers are read off the table at the end, or off any later one. -/
theorem disambiguateAll_answers (c : Cache) (questions : List (String × String)) (T : Bodies)
    (hT : Bodies.Keeps (c.disambiguateAll questions).2.bodies T) :
    (c.disambiguateAll questions).1
      = questions.map fun question =>
          T.templateName question.1 (Text.fingerprint question.2) := by
  induction questions generalizing c with
  | nil => rfl
  | cons question rest ih =>
      have hlater := disambiguateAll_keeps (c.disambiguate question.1 question.2).2.1 rest
      rw [List.map_cons, ← disambiguate_name c question.1 question.2 T (hlater.trans hT),
        ← ih (c.disambiguate question.1 question.2).2.1 hT]
      rfl

/-- The table at the end answers a plain name with what came first under it. -/
theorem lookup_disambiguateAll (c : Cache) (questions : List (String × String)) (name : String)
    (hname : ¬ IsHashed name) :
    (c.disambiguateAll questions).2.bodies.lookup name = c.firstUnder questions name := by
  induction questions generalizing c with
  | nil => exact (Option.or_none).symm
  | cons question rest ih =>
      have hrest := ih (c.disambiguate question.1 question.2).2.1
      rw [firstUnder, disambiguate_bodies, Bodies.lookup_note _ name _ _ hname,
        Option.or_assoc] at hrest
      refine hrest.trans ?_
      unfold firstUnder
      -- The first question with the name is noted, unless the table had an entry.
      by_cases heq : question.1 = name
      · rw [List.find?_cons_of_pos (by simpa using heq), if_pos heq, Option.map_some,
          Option.some_or]
      · rw [List.find?_cons_of_neg (by simpa using heq), if_neg heq, Option.none_or]

end Cache

/-- Naming is stable and injective. However the table starts and whatever bodies
    are asked about under names that pushed pieces spell, every question is
    answered. An answer is the name, if the body has the fingerprint that came
    first under the name, and otherwise the name with `_h` and the hexadecimal
    fingerprint behind it. Two questions of the sequence get the same answer
    exactly if they had the same name and bodies with the same fingerprint. -/
theorem disambiguation_injective (c : Cache) (questions : List (List NameToken × String))
    (hpushed : ∀ question ∈ questions, ∀ t ∈ question.1, t.Pushed) :
    let asked := questions.map fun question => (unitName question.1, question.2)
    let answers := (c.disambiguateAll asked).1
    answers.length = questions.length ∧
      ∀ (i : Nat) (ts : List NameToken) (body answer : String),
        questions[i]? = some (ts, body) → answers[i]? = some answer →
        answer = (if c.firstUnder asked (unitName ts) = some (Text.fingerprint body)
          then unitName ts
          else unitName ts ++ "_h" ++ Text.hex (Text.fingerprint body).toNat) ∧
        ∀ (j : Nat) (us : List NameToken) (other answer' : String),
          questions[j]? = some (us, other) → answers[j]? = some answer' →
          (answer = answer' ↔
            unitName ts = unitName us ∧ Text.fingerprint body = Text.fingerprint other) := by
  intro asked answers
  have hanswers := c.disambiguateAll_answers asked _ (Bodies.Keeps.refl _)
  have hplain : ∀ (i : Nat) (ts : List NameToken) (body : String),
      questions[i]? = some (ts, body) → ¬ IsHashed (unitName ts) := fun i ts body hi =>
    not_isHashed_unitName ts (hpushed _ (List.mem_of_getElem? hi))
  -- Read off the table at the end, an answer depends on its own question only.
  have hanswer : ∀ (i : Nat) (ts : List NameToken) (body answer : String),
      questions[i]? = some (ts, body) → answers[i]? = some answer →
      answer = Bodies.templateName (c.disambiguateAll asked).2.bodies (unitName ts)
        (Text.fingerprint body) := by
    intro i ts body answer hi hget
    have hall : answers[i]? = _ := congrArg (·[i]?) hanswers
    rw [List.map_map, List.getElem?_map, hi, Option.map_some, hget, Option.some.injEq] at hall
    exact hall
  refine ⟨?_, fun i ts body answer hi hget => ⟨?_, ?_⟩⟩
  · rw [show answers = _ from hanswers, List.length_map, List.length_map]
  · rw [hanswer i ts body answer hi hget, Bodies.templateName,
      c.lookup_disambiguateAll asked _ (hplain i ts body hi), Cache.hashedName, NameToken.text,
      String.append_assoc]
  · intro j us other answer' hj hget'
    rw [hanswer i ts body answer hi hget, hanswer j us other answer' hj hget']
    exact templateName_eq_iff _ _ _ _ _ (hplain i ts body hi) (hplain j us other hj)

/-- Two bodies meet under one name, and the second is met again after another
    name was asked about. It is renamed both times, and the first body keeps the
    name. -/
theorem disambiguation_injective_forwards :
    let ts : List NameToken := [.port, .width 8, .member 0, .port, .width 8, .member 1]
    let two := "2|res0 := x0;res1 := x1|out0!res0,out1!res1"
    let twice := "1|res0 := x0;res1 := x0|out0!res0,out1!res1"
    let questions := [(ts, two), (ts, twice), ([.port, .width 8], "1|res0 := x0|out0!res0"),
      (ts, twice)]
    let asked := questions.map fun question => (unitName question.1, question.2)
    let answers := (Cache.empty.disambiguateAll asked).1
    (∀ question ∈ questions, ∀ t ∈ question.1, t.Pushed) ∧ answers.length = 4 ∧
      ∃ first second last, answers[0]? = some first ∧ answers[1]? = some second ∧
        answers[3]? = some last ∧ first = "func_port_8_p0_port_8_p1" ∧
        second = "func_port_8_p0_port_8_p1_h77050375fd71cac2" ∧ second = last ∧
        first ≠ second := by
  intro ts two twice questions asked answers
  have hport : NameToken.port.Pushed := .operation (.forward (.arg 0))
  have hpushed : ∀ question ∈ questions, ∀ t ∈ question.1, t.Pushed := by
    simp [questions, ts, hport, NameToken.Pushed.width, NameToken.Pushed.member]
  have hlength : answers.length = 4 := by decide +kernel
  have hdiffer : Text.fingerprint two ≠ Text.fingerprint twice := by decide +kernel
  -- The body that forwards two channels came first.
  have hfirst : Cache.empty.firstUnder asked (unitName ts) = some (Text.fingerprint two) := by
    decide +kernel
  have hall := (disambiguation_injective Cache.empty questions hpushed).2
  refine ⟨hpushed, hlength, answers[0], answers[1], answers[3], by simp, by simp, by simp,
    ?_, ?_, ?_, ?_⟩
  · rw [(hall 0 ts two answers[0] rfl (by simp [answers, asked])).1, hfirst, if_pos rfl]
    decide +kernel
  · rw [(hall 1 ts twice answers[1] rfl (by simp [answers, asked])).1, hfirst,
      if_neg fun h => hdiffer (Option.some.inj h)]
    decide +kernel
  · exact ((hall 1 ts twice answers[1] rfl (by simp [answers, asked])).2 3 ts twice answers[3] rfl
      (by simp [answers, asked])).mpr ⟨rfl, rfl⟩
  · intro h
    exact hdiffer (((hall 0 ts two answers[0] rfl (by simp [answers, asked])).2 1 ts twice
      answers[1] rfl (by simp [answers, asked])).mp h).2

end DataflowCircuit
