import DataflowCircuit.Proofs.Naming.Disambiguation
import DataflowCircuit.Proofs.Source.Words
import Mathlib.Data.List.Nodup

/-!
# Names Decode in One Way

Inside the piece of an operation nothing separates the operands from the
operator: `0add1`, `r2orr3` and `0addd0` are pieces. Reading one back rests on
three facts. Every operand ends in a number and no operator holds a digit, so a
piece falls apart into runs of letters, each with a number behind it. Only the
first run may lack letters, because an operator stands in front of every later
number, so the runs are found in one way. And the letters of a run, which are an
operator, the mark of a repeated operand and the mark of the next operand with
nothing between them, are different for different choices of the three.

There are finitely many choices, and the last fact is checked on all of them. A
new operator with an unlucky mnemonic would be noticed there.

## Main definitions

* `Run`, `runsText`: Letters with a number behind them, and their text.
* `Operand.mark`, `Operand.number`: The two parts of an operand's spelling.
* `Operation.runs`, `NameToken.Reads`: The runs of a piece.

## Theorems

* `runsText_injective`: Runs are found again in their text.
* `binaryLetters_nodup`, `unaryLetters_nodup`: Letters of different choices
  differ.
* `reads_unique`: Runs belong to one piece.
* `piece_injective`: A piece is spelled like no other.
* `unitName_injective`: So is a name.
-/

namespace DataflowCircuit

/-- Letters and the number behind them. -/
abbrev Run := List Char × Nat

/-- The text of runs. -/
def runsText (rs : List Run) : List Char :=
  rs.flatMap fun r => r.1 ++ Nat.toDigits 10 r.2

/-- A text without digits, which is checked by going through it. -/
theorem letters_of_all (cs : List Char) (h : (cs.all fun c => !c.isDigit) = true) :
    ∀ c ∈ cs, c.isDigit = false := by
  intro c hc
  simpa using List.all_eq_true.mp h c hc

/-- Runs that can be told apart: there is no digit among the letters, and only the
    first run may lack them. -/
structure ProperRuns (rs : List Run) : Prop where
  letters : ∀ r ∈ rs, ∀ c ∈ r.1, c.isDigit = false
  separated : ∀ r ∈ rs.tail, r.1 ≠ []

section Runs

/-- The text of a run comes first. -/
theorem runsText_cons (r : Run) (rs : List Run) :
    runsText (r :: rs) = r.1 ++ (Nat.toDigits 10 r.2 ++ runsText rs) := by
  rw [runsText, List.flatMap_cons, List.append_assoc]
  rfl

/-- What follows the first run starts with a letter. -/
theorem ProperRuns.rest_head {r : Run} {rs : List Run} (h : ProperRuns (r :: rs)) :
    ∀ c ∈ (runsText rs).head?, c.isDigit = false := by
  intro c hc
  cases rs with
  | nil => cases hc
  | cons r' rs =>
      have hletters := h.letters r' (by simp)
      have hsome := h.separated r' (by simp)
      rw [runsText_cons] at hc
      -- The letters of the next run are there, and its first character is one of them.
      cases hr : r'.1 with
      | nil => exact absurd hr hsome
      | cons d ds =>
          rw [hr] at hc hletters
          cases hc
          exact hletters c List.mem_cons_self

/-- What is behind the first run can be told apart as well. -/
theorem ProperRuns.tail {r : Run} {rs : List Run} (h : ProperRuns (r :: rs)) : ProperRuns rs :=
  ⟨fun r' hr' => h.letters r' (List.mem_cons_of_mem _ hr'),
    fun r' hr' => h.separated r' (List.mem_of_mem_tail hr')⟩

/-- The text of a run starts with its letters, and its number comes next. -/
theorem ProperRuns.cut {r : Run} {rs : List Run} (h : ProperRuns (r :: rs)) :
    (runsText (r :: rs)).takeWhile (fun c => !c.isDigit) = r.1 ∧
      ((runsText (r :: rs)).dropWhile fun c => !c.isDigit).takeWhile Char.isDigit
        = Nat.toDigits 10 r.2 ∧
      ((runsText (r :: rs)).dropWhile fun c => !c.isDigit).dropWhile Char.isDigit
        = runsText rs := by
  have hletters : ∀ c ∈ r.1, (!c.isDigit) = true := by
    intro c hc
    rw [h.letters r List.mem_cons_self c hc]
    rfl
  have hnumber : ∀ c ∈ (Nat.toDigits 10 r.2 ++ runsText rs).head?, (!c.isDigit) = false := by
    intro c hc
    rcases Text.toDigits_head r.2 with ⟨d, ds, hds, hdigit⟩
    rw [hds] at hc
    cases hc
    rw [hdigit]
    rfl
  -- The letters end at the number, and the number at the letters of the next run.
  rcases Source.span_append _ r.1 (Nat.toDigits 10 r.2 ++ runsText rs) hletters hnumber with
    ⟨hfirst, hrest⟩
  rw [runsText_cons, hfirst, hrest]
  exact ⟨rfl, Source.span_append _ _ _ (Text.isDigit_toDigits r.2) h.rest_head⟩

/-- A run has a number, and so a text. -/
theorem runsText_cons_ne_nil (r : Run) (rs : List Run) : runsText (r :: rs) ≠ [] := by
  rw [runsText_cons]
  exact List.append_ne_nil_of_right_ne_nil _
    (List.append_ne_nil_of_left_ne_nil Nat.toDigits_ne_nil _)

/-- Runs are found again in their text. -/
theorem runsText_injective (rs rs' : List Run) (h : ProperRuns rs) (h' : ProperRuns rs')
    (heq : runsText rs = runsText rs') : rs = rs' := by
  induction rs generalizing rs' with
  | nil =>
      cases rs' with
      | nil => rfl
      | cons r' rs' => exact absurd heq.symm (runsText_cons_ne_nil r' rs')
  | cons r rs ih =>
      cases rs' with
      | nil => exact absurd heq (runsText_cons_ne_nil r rs)
      | cons r' rs' =>
          rcases h.cut with ⟨hletters, hnumber, hrest⟩
          rcases h'.cut with ⟨hletters', hnumber', hrest'⟩
          rw [heq] at hletters hnumber hrest
          -- Cut at the same places, equal texts have equal first runs.
          have hfirst : r = r' := Prod.ext (hletters.symm.trans hletters')
            (toDigits_inj _ _ (hnumber.symm.trans hnumber'))
          rw [hfirst, ih rs' h.tail h'.tail (hrest.symm.trans hrest')]

end Runs

section Letters

namespace Operand

/-- What stands in front of the number in the spelling of an operand. -/
def mark : Operand → List Char
  | .arg _ => []
  | .res _ => ['r']
  | .const _ => ['c']

/-- The number in the spelling of an operand. -/
def number : Operand → Nat
  | .arg slot => slot
  | .res index => index
  | .const value => value

/-- An operand is spelled as its mark and its number. -/
theorem mnemonic_eq (o : Operand) :
    o.mnemonic.toList = o.mark ++ Nat.toDigits 10 o.number := by
  cases o with
  | arg slot => exact Nat.toList_repr
  | res index =>
      rw [mnemonic, String.toList_append, Text.toString_toList]
      rfl
  | const value =>
      rw [mnemonic, String.toList_append, Text.toString_toList]
      rfl

/-- An operand is known by its mark and its number. -/
theorem eq_of_mark (o o' : Operand) (hmark : o.mark = o'.mark) (hnumber : o.number = o'.number) :
    o = o' := by
  cases o <;> cases o' <;> first | exact congrArg _ hnumber | cases hmark

/-- The marks of operands. -/
def marks : List (List Char) :=
  [[], ['r'], ['c']]

/-- There are no other marks. -/
theorem mark_mem (o : Operand) : o.mark ∈ marks := by
  cases o with
  | arg slot => exact List.mem_cons_self
  | res index => exact List.mem_cons_of_mem _ List.mem_cons_self
  | const value => exact List.mem_cons_of_mem _ (List.mem_cons_of_mem _ List.mem_cons_self)

/-- There is no digit among the letters of a mark. -/
theorem marks_letters : ∀ mark ∈ marks, ∀ c ∈ mark, c.isDigit = false := by
  have hall : ∀ mark ∈ marks, (mark.all fun c => !c.isDigit) = true := by decide
  exact fun mark hmark => letters_of_all mark (hall mark hmark)

end Operand

/-- The choices of an operator, the mark of a repeated operand and the mark of the
    operand that follows. -/
def binaryChoices : List (BinOp × List Char × List Char) :=
  BinOp.all.flatMap fun op => [[], ['d']].flatMap fun repeated =>
    Operand.marks.map fun mark => (op, repeated, mark)

/-- The letters between the two numbers of a binary operation. -/
def binaryLetters (choice : BinOp × List Char × List Char) : List Char :=
  choice.1.mnemonic.toList ++ (choice.2.1 ++ choice.2.2)

/-- The choices of a unary operator and the mark of its operand. -/
def unaryChoices : List (UnOp × List Char) :=
  UnOp.all.flatMap fun op => Operand.marks.map fun mark => (op, mark)

/-- The letters in front of the number of a unary operation. -/
def unaryLetters (choice : UnOp × List Char) : List Char :=
  choice.1.mnemonic.toList ++ choice.2

/-- Different choices have different letters. -/
theorem binaryLetters_nodup : (binaryChoices.map binaryLetters).Nodup := by
  decide +kernel

/-- So they have for unary operations, and none are those of another piece. -/
theorem unaryLetters_nodup :
    ([] :: ['i', 'n', 'i', 't'] :: ['p'] :: unaryChoices.map unaryLetters).Nodup := by
  decide +kernel

/-- The letters of every choice separate numbers. -/
theorem binaryLetters_separate : ∀ choice ∈ binaryChoices,
    binaryLetters choice ≠ [] ∧ ∀ c ∈ binaryLetters choice, c.isDigit = false := by
  have hall : ∀ choice ∈ binaryChoices, binaryLetters choice ≠ [] ∧
      ((binaryLetters choice).all fun c => !c.isDigit) = true := by decide +kernel
  exact fun choice hmem => ⟨(hall choice hmem).1, letters_of_all _ (hall choice hmem).2⟩

/-- There are no digits among the letters of a unary operation. -/
theorem unaryLetters_letters : ∀ choice ∈ unaryChoices,
    ∀ c ∈ unaryLetters choice, c.isDigit = false := by
  have hall : ∀ choice ∈ unaryChoices,
      ((unaryLetters choice).all fun c => !c.isDigit) = true := by decide +kernel
  exact fun choice hmem => letters_of_all _ (hall choice hmem)

/-- The choice that the letters of a binary operation stand for. -/
def binaryChoice (op : BinOp) (l r : Operand) : BinOp × List Char × List Char :=
  (op, if l = r then ['d'] else [], r.mark)

/-- It is among the choices that were checked. -/
theorem binaryChoice_mem (op : BinOp) (l r : Operand) : binaryChoice op l r ∈ binaryChoices := by
  have hop : op ∈ BinOp.all := by cases op <;> decide
  have hrepeated : (if l = r then ['d'] else []) ∈ [[], ['d']] := by split <;> simp
  exact List.mem_flatMap.mpr ⟨op, hop, List.mem_flatMap.mpr ⟨_, hrepeated,
    List.mem_map_of_mem r.mark_mem⟩⟩

/-- So is that of a unary operation. -/
theorem unaryChoice_mem (op : UnOp) (x : Operand) : (op, x.mark) ∈ unaryChoices := by
  have hop : op ∈ UnOp.all := by cases op <;> decide
  exact List.mem_flatMap.mpr ⟨op, hop, List.mem_map_of_mem x.mark_mem⟩

/-- The letters of a unary operation are those of no other piece with one number. -/
theorem unaryLetters_apart (op : UnOp) (x : Operand) :
    unaryLetters (op, x.mark) ∉ [[], ['i', 'n', 'i', 't'], ['p']] := by
  have hmem := List.mem_map_of_mem (f := unaryLetters) (unaryChoice_mem op x)
  exact fun hother => List.disjoint_of_nodup_append unaryLetters_nodup hother hmem

end Letters

section Operations

namespace Operation

/-- The runs that spell an operation. What forwards is not spelled in runs. -/
def runs : Operation → List Run
  | .binary op l r => [(l.mark, l.number), (binaryLetters (binaryChoice op l r), r.number)]
  | .unary op x => [(unaryLetters (op, x.mark), x.number)]
  | .select x y z => [(y.mark, y.number), ('q' :: x.mark, x.number), ('e' :: z.mark, z.number)]
  | .forward _ => []

/-- An operation that computes something is known by its runs. -/
theorem eq_of_runs (op op' : Operation) (hop : op.isForward = false)
    (hop' : op'.isForward = false) (h : op.runs = op'.runs) : op = op' := by
  cases op with
  | binary op l r =>
      cases op' with
      | binary op' l' r' =>
          simp only [runs, List.cons.injEq, Prod.mk.injEq, and_true] at h
          rcases h with ⟨⟨hmark, hnumber⟩, hletters, hnumber'⟩
          -- The letters in the middle give the operator and the mark behind it.
          have hchoice := List.inj_on_of_nodup_map binaryLetters_nodup
            (binaryChoice_mem op l r) (binaryChoice_mem op' l' r') hletters
          rcases Prod.mk.inj hchoice with ⟨hop, hrest⟩
          rw [hop, l.eq_of_mark l' hmark hnumber,
            r.eq_of_mark r' (Prod.mk.inj hrest).2 hnumber']
      | unary _ _ => exact nomatch congrArg List.length h
      | select _ _ _ => exact nomatch congrArg List.length h
      | forward _ => cases hop'
  | unary op x =>
      cases op' with
      | binary _ _ _ => exact nomatch congrArg List.length h
      | unary op' x' =>
          simp only [runs, List.cons.injEq, Prod.mk.injEq, and_true] at h
          have hchoice := List.inj_on_of_nodup_map unaryLetters_nodup.of_cons.of_cons.of_cons
            (unaryChoice_mem op x) (unaryChoice_mem op' x') h.1
          rcases Prod.mk.inj hchoice with ⟨hop, hmark⟩
          rw [hop, x.eq_of_mark x' hmark h.2]
      | select _ _ _ => exact nomatch congrArg List.length h
      | forward _ => cases hop'
  | select x y z =>
      cases op' with
      | binary _ _ _ => exact nomatch congrArg List.length h
      | unary _ _ => exact nomatch congrArg List.length h
      | select x' y' z' =>
          simp only [runs, List.cons.injEq, Prod.mk.injEq, and_true, true_and] at h
          rcases h with ⟨⟨hy, hny⟩, ⟨hx, hnx⟩, hz, hnz⟩
          rw [x.eq_of_mark x' hx hnx, y.eq_of_mark y' hy hny, z.eq_of_mark z' hz hnz]
      | forward _ => cases hop'
  | forward _ => cases hop

end Operation

namespace NameToken

/-- The runs that spell a piece. Only the piece of an operation that forwards has
    none. -/
inductive Reads : NameToken → List Run → Prop where
  | operation (op : Operation) (hop : op.isForward = false) : Reads op.token op.runs
  | init (value : Nat) : Reads (.init value) [(['i', 'n', 'i', 't'], value)]
  | width (bits : Nat) : Reads (.width bits) [([], bits)]
  | member (position : Nat) : Reads (.member position) [(['p'], position)]

/-- What lowering writes is spelled in runs, or forwards. -/
theorem Pushed.reads {t : NameToken} (h : t.Pushed) : t = .port ∨ ∃ rs, t.Reads rs := by
  cases h with
  | operation op =>
      cases hop : op.isForward with
      | true =>
          cases op with
          | forward x => exact Or.inl rfl
          | _ => cases hop
      | false => exact Or.inr ⟨_, .operation op hop⟩
  | init value => exact Or.inr ⟨_, .init value⟩
  | width bits => exact Or.inr ⟨_, .width bits⟩
  | member position => exact Or.inr ⟨_, .member position⟩

/-- The runs of a piece are its spelling. -/
theorem Reads.piece_eq {t : NameToken} {rs : List Run} (h : t.Reads rs) :
    t.piece = runsText rs := by
  cases h with
  | operation op hop =>
      cases op with
      | binary op l r =>
          by_cases hlr : l = r <;>
            simp [Operation.token, piece, runsText, Operation.runs, binaryLetters, binaryChoice,
              Operand.mnemonic_eq, hlr]
      | unary op x =>
          simp [Operation.token, piece, runsText, Operation.runs, unaryLetters,
            Operand.mnemonic_eq]
      | select x y z =>
          simp [Operation.token, piece, runsText, Operation.runs, Operand.mnemonic_eq]
      | forward x => cases hop
  | init value => exact (List.append_nil _).symm
  | width bits => exact (List.append_nil _).symm
  | member position => exact (List.append_nil _).symm

/-- The runs of a piece can be told apart, and there are some. -/
theorem Reads.proper {t : NameToken} {rs : List Run} (h : t.Reads rs) :
    ProperRuns rs ∧ rs ≠ [] := by
  have hmark := fun o : Operand => Operand.marks_letters o.mark o.mark_mem
  -- Most pieces are one run.
  have hone : ∀ (letters : List Char) (n : Nat), (∀ c ∈ letters, c.isDigit = false) →
      ProperRuns [(letters, n)] ∧ [(letters, n)] ≠ [] := fun letters n hletters =>
    ⟨⟨List.forall_mem_singleton.mpr hletters, fun _ h => absurd h List.not_mem_nil⟩,
      List.cons_ne_nil _ _⟩
  cases h with
  | operation op hop =>
      cases op with
      | binary op l r =>
          have hletters := binaryLetters_separate _ (binaryChoice_mem op l r)
          exact ⟨⟨List.forall_mem_cons.mpr
              ⟨hmark l, List.forall_mem_singleton.mpr hletters.2⟩,
            List.forall_mem_singleton.mpr hletters.1⟩, List.cons_ne_nil _ _⟩
      | unary op x => exact hone _ _ (unaryLetters_letters _ (unaryChoice_mem op x))
      | select x y z =>
          have hlead : ∀ (c : Char) (o : Operand), c.isDigit = false →
              ∀ d ∈ c :: o.mark, d.isDigit = false := fun c o hc =>
            List.forall_mem_cons.mpr ⟨hc, hmark o⟩
          refine ⟨⟨List.forall_mem_cons.mpr ⟨hmark y, List.forall_mem_cons.mpr
            ⟨hlead 'q' x rfl, List.forall_mem_singleton.mpr (hlead 'e' z rfl)⟩⟩, ?_⟩,
            List.cons_ne_nil _ _⟩
          exact List.forall_mem_cons.mpr ⟨List.cons_ne_nil _ _,
            List.forall_mem_singleton.mpr (List.cons_ne_nil _ _)⟩
      | forward x => cases hop
  | init value => exact hone _ value (letters_of_all _ rfl)
  | width bits => exact hone [] bits (letters_of_all [] rfl)
  | member position => exact hone _ position (letters_of_all _ rfl)

/-- Runs of an operation are not those of another piece. -/
theorem runs_apart (op : Operation) (letters : List Char) (n : Nat)
    (hletters : letters ∈ [[], ['i', 'n', 'i', 't'], ['p']]) : op.runs ≠ [(letters, n)] := by
  intro h
  cases op with
  | binary _ _ _ => exact nomatch congrArg List.length h
  | unary op x =>
      simp only [Operation.runs, List.cons.injEq, Prod.mk.injEq, and_true] at h
      rw [← h.1] at hletters
      exact unaryLetters_apart op x hletters
  | select _ _ _ => exact nomatch congrArg List.length h
  | forward _ => exact nomatch congrArg List.length h

/-- Runs belong to one piece. -/
theorem reads_unique {t u : NameToken} {rs : List Run} (ht : t.Reads rs) (hu : u.Reads rs) :
    t = u := by
  -- The two lists of runs are kept apart, or the cases of one would rule the other.
  generalize hrs : rs = rs' at hu
  cases ht with
  | operation op hop =>
      cases hu with
      | operation op' hop' => rw [op.eq_of_runs op' hop hop' hrs]
      | init value => exact absurd hrs (runs_apart op _ value (by simp))
      | width bits => exact absurd hrs (runs_apart op _ bits (by simp))
      | member position => exact absurd hrs (runs_apart op _ position (by simp))
  | init value =>
      cases hu with
      | operation op' _ => exact absurd hrs.symm (runs_apart op' _ value (by simp))
      | _ => cases hrs <;> rfl
  | width bits =>
      cases hu with
      | operation op' _ => exact absurd hrs.symm (runs_apart op' _ bits (by simp))
      | _ => cases hrs <;> rfl
  | member position =>
      cases hu with
      | operation op' _ => exact absurd hrs.symm (runs_apart op' _ position (by simp))
      | _ => cases hrs <;> rfl

/-- No runs spell the piece of what forwards. -/
theorem Reads.piece_ne_port {t : NameToken} {rs : List Run} (h : t.Reads rs) :
    t.piece ≠ port.piece := by
  intro hpiece
  cases rs with
  | nil => exact h.proper.2 rfl
  | cons r rs =>
      -- Every run holds a digit.
      rcases Text.toDigits_head r.2 with ⟨c, cs, hcs, hdigit⟩
      have hmem : c ∈ port.piece := by
        rw [← hpiece, h.piece_eq, runsText_cons, hcs]
        simp
      have hnone : ∀ c ∈ port.piece, c.isDigit = false := letters_of_all _ rfl
      rw [hnone c hmem] at hdigit
      cases hdigit

/-- A piece is spelled like no other. -/
theorem piece_injective {t u : NameToken} (ht : t.Pushed) (hu : u.Pushed)
    (h : t.piece = u.piece) : t = u := by
  -- Two spellings in runs are compared run by run, and `port` is spelled like none of them.
  rcases ht.reads with rfl | ⟨rs, hrs⟩
  · rcases hu.reads with rfl | ⟨rs', hrs'⟩
    · rfl
    · exact absurd h.symm hrs'.piece_ne_port
  · rcases hu.reads with rfl | ⟨rs', hrs'⟩
    · exact absurd h hrs.piece_ne_port
    · rw [hrs.piece_eq, hrs'.piece_eq] at h
      rw [← runsText_injective rs rs' hrs.proper.1 hrs'.proper.1 h] at hrs'
      exact reads_unique hrs hrs'

end NameToken

/-- An operation that its piece tells. The piece of an operation that forwards does
    not say what is forwarded, so that has to be the first argument. -/
def Operation.Told (op : Operation) : Prop :=
  op.isForward = true → op = .forward (.arg 0)

/-- An operation forwards exactly if its piece names a port only. -/
theorem Operation.isForward_iff (op : Operation) : op.isForward = true ↔ op.token = .port := by
  cases op <;> simp [isForward, token]

/-- The piece of an operation tells the operation. -/
theorem Operation.eq_of_token (op op' : Operation) (hop : op.Told) (hop' : op'.Told)
    (h : op.token = op'.token) : op = op' := by
  -- The piece says whether there is anything to read in it.
  have hboth : op.isForward = true ↔ op'.isForward = true := by
    rw [isForward_iff, isForward_iff, h]
  by_cases hforward : op.isForward = true
  · rw [hop hforward, hop' (hboth.mp hforward)]
  · have hcomputes := Bool.eq_false_iff.mpr hforward
    have hcomputes' := Bool.eq_false_iff.mpr fun hforward' => hforward (hboth.mpr hforward')
    have hreads := NameToken.Reads.operation op hcomputes
    have hreads' := NameToken.Reads.operation op' hcomputes'
    refine op.eq_of_runs op' hcomputes hcomputes'
      (runsText_injective _ _ hreads.proper.1 hreads'.proper.1 ?_)
    rw [← hreads.piece_eq, ← hreads'.piece_eq, h]

/-- Lists of things that `f` tells apart are told apart. -/
theorem eq_of_map_eq {α β : Type} (f : α → β) (P : α → Prop)
    (hf : ∀ a b, P a → P b → f a = f b → a = b) (xs ys : List α) (hxs : ∀ x ∈ xs, P x)
    (hys : ∀ y ∈ ys, P y) (h : xs.map f = ys.map f) : xs = ys := by
  induction xs generalizing ys with
  | nil => exact (List.map_eq_nil_iff.mp h.symm).symm
  | cons x xs ih =>
      cases ys with
      | nil => cases h
      | cons y ys =>
          rw [List.forall_mem_cons] at hxs hys
          rcases List.cons.inj h with ⟨hhead, htail⟩
          rw [hf x y hxs.1 hys.1 hhead, ih ys hxs.2 hys.2 htail]

/-- A name tells the pieces that spell it. -/
theorem unitName_injective (ts us : List NameToken) (hts : ∀ t ∈ ts, t.Pushed)
    (hus : ∀ u ∈ us, u.Pushed) (h : unitName ts = unitName us) : ts = us := by
  -- Cut at the marks, the names are lists of pieces.
  have hcut := congrArg (fun name : String => name.toList.splitOn '_') h
  rw [splitOn_unitName ts fun t ht => (hts t ht).proper,
    splitOn_unitName us fun u hu => (hus u hu).proper] at hcut
  exact eq_of_map_eq NameToken.piece NameToken.Pushed
    (fun _ _ ht hu => NameToken.piece_injective ht hu) ts us hts hus (List.cons.inj hcut).2

end Operations

end DataflowCircuit
