import DataflowCircuit.Proofs.Compile.Files
import DataflowCircuit.Proofs.Netlist.Keys

/-!
# Records Behind a Text

Estimated costs are kept by adding records to the end of a file that may have
been there before, written by hand or by something else. A record is one line,
and it is only ended by a line feed, not started by one. So whether it is a
line of its own depends on how the text before it ends.

If the last line of that text is blank, which covers the empty text and every
text that ends in a line feed, a record that is added is read behind those that
were there. If it is not, the record runs into it. Behind a remark it becomes
part of the remark and is lost. Behind a record the two make one line with too
many fields, and the file can no longer be read at all. There is no third case
among the texts that can be read, so a blank last line is also necessary.

## Main definitions

* `Text.firstLines`, `Text.lastLine`: A text cut behind its last line feed.
* `Files.appendRecords`: Add records to a file one after another.
* `Storable`: A record as it is added to a file.

## Theorems

* `Text.lines_append`: Lines are cut behind a line feed.
* `Text.words_append_length`: Joining two texts loses at most one word.
* `readField?_toString`: A written number is read back.
* `readRecord_recordText`: A written record is read back.
* `readLines_append_ok_iff`: Lines are read part by part.
* `readRecords_append_iff`: When added records are read back.
* `appended_records_are_read_iff`: The same for files.
-/

namespace DataflowCircuit

namespace Text

section Lines

/-- The lines of a text up to its last line feed. -/
def firstLines (cs : List Char) : List Char :=
  cs.rdropWhile (· ≠ '\n')

/-- What follows the last line feed of a text. -/
def lastLine (cs : List Char) : List Char :=
  cs.rtakeWhile (· ≠ '\n')

/-- A text is its first lines and its last line. -/
theorem firstLines_append_lastLine (cs : List Char) : firstLines cs ++ lastLine cs = cs :=
  List.rdropWhile_append_rtakeWhile

/-- The last line goes up to the end. -/
theorem feed_notMem_lastLine (cs : List Char) : '\n' ∉ lastLine cs := by
  intro h
  have hne := List.mem_rtakeWhile_imp h
  simp at hne

/-- The first lines are none, or they end in a line feed. -/
theorem firstLines_ends (cs : List Char) :
    firstLines cs = [] ∨ ∃ xs, firstLines cs = xs ++ ['\n'] := by
  by_cases hnil : firstLines cs = []
  · exact Or.inl hnil
  · have hlast : (firstLines cs).getLast hnil = '\n' := by
      simpa [firstLines] using List.rdropWhile_last_not (fun c : Char => decide (c ≠ '\n')) cs hnil
    refine Or.inr ⟨(firstLines cs).dropLast, ?_⟩
    rw [← hlast]
    exact (List.dropLast_append_getLast hnil).symm

/-- What follows a line feed starts a line of its own. -/
theorem linesFrom_feed (line xs ys : List Char) :
    linesFrom line (xs ++ '\n' :: ys) = linesFrom line (xs ++ ['\n']) ++ lines ys := by
  induction xs generalizing line with
  | nil => simp [linesFrom, lines]
  | cons c xs ih =>
      rw [List.cons_append, List.cons_append, linesFrom, linesFrom]
      by_cases hc : c = '\n'
      · rw [if_pos hc, if_pos hc, ih, List.cons_append]
      · rw [if_neg hc, if_neg hc, ih]

/-- Lines are cut behind a line feed. -/
theorem lines_append (cs ds : List Char) :
    lines (firstLines cs ++ ds) = lines (firstLines cs) ++ lines ds := by
  rcases firstLines_ends cs with hnil | ⟨xs, hxs⟩
  · rw [hnil]
    rfl
  · rw [hxs, List.append_assoc, List.singleton_append]
    exact linesFrom_feed [] xs ds

/-- Characters that are no line feed go to the line under way. -/
theorem linesFrom_append (line xs ys : List Char) (hxs : '\n' ∉ xs) :
    linesFrom line (xs ++ ys) = linesFrom (xs.reverse ++ line) ys := by
  induction xs generalizing line with
  | nil => rfl
  | cons c xs ih =>
      rw [List.mem_cons, not_or] at hxs
      rw [List.cons_append, linesFrom, if_neg (Ne.symm hxs.1), ih _ hxs.2, List.reverse_cons,
        List.append_assoc, List.singleton_append]

/-- A text without a line feed is one line once it is ended by one. -/
theorem lines_cons (xs ys : List Char) (hxs : '\n' ∉ xs) :
    lines (xs ++ '\n' :: ys) = xs :: lines ys := by
  rw [lines, linesFrom_append [] xs _ hxs, linesFrom, if_pos rfl, List.append_nil,
    List.reverse_reverse]
  rfl

/-- A text without a line feed is at most one line. -/
theorem lines_single (xs : List Char) (hxs : '\n' ∉ xs) :
    lines xs = if xs.isEmpty then [] else [xs] := by
  have hfrom := linesFrom_append [] xs [] hxs
  rw [List.append_nil] at hfrom
  rw [lines, hfrom, linesFrom, List.append_nil, List.reverse_reverse, List.isEmpty_reverse]

end Lines

section Words

/-- A word under way makes at least as many words. -/
theorem wordsFrom_length_le (word word' : List Char) (cs : List Char) (h : word' ≠ []) :
    (wordsFrom word cs).length ≤ (wordsFrom word' cs).length := by
  induction cs generalizing word word' with
  | nil =>
      have hword' : word'.isEmpty = false := by simpa using h
      unfold wordsFrom
      rw [hword']
      split <;> simp
  | cons c cs ih =>
      have hword' : word'.isEmpty = false := by simpa using h
      unfold wordsFrom
      rw [hword']
      by_cases hc : isBlank c = true
      · rw [if_pos hc, if_pos hc]
        split <;> simp
      · rw [if_neg hc, if_neg hc]
        exact ih _ _ (List.cons_ne_nil _ _)

/-- Joining two texts loses at most one word. -/
theorem words_append_length (xs ys : List Char) :
    (words xs).length + (words ys).length ≤ (words (xs ++ ys)).length + 1 := by
  -- The word under way where the first text ends is the one that may be lost.
  have hfrom : ∀ word, (wordsFrom word xs).length + (words ys).length
      ≤ (wordsFrom word (xs ++ ys)).length + 1 := by
    induction xs with
    | nil =>
        intro word
        rw [List.nil_append, wordsFrom]
        by_cases hword : word = []
        · simp [hword, words]
        · have hle := wordsFrom_length_le [] word ys hword
          have hempty : word.isEmpty = false := by simpa using hword
          rw [hempty]
          simp only [Bool.false_eq_true, if_false, List.length_singleton, words]
          omega
    | cons c xs ih =>
        intro word
        rw [List.cons_append, wordsFrom, wordsFrom]
        by_cases hc : isBlank c = true
        · rw [if_pos hc, if_pos hc]
          have hrest := ih []
          split
          · exact hrest
          · simp only [List.length_cons]
            omega
        · rw [if_neg hc, if_neg hc]
          exact ih _
  exact hfrom []

/-- A text of blanks has no word. -/
theorem words_blank (xs ys : List Char) (h : xs.all isBlank = true) :
    words (xs ++ ys) = words ys := by
  induction xs with
  | nil => rfl
  | cons c xs ih =>
      rw [List.all_cons, Bool.and_eq_true] at h
      rw [← ih h.2, words, List.cons_append, wordsFrom, if_pos h.1]
      rfl

/-- A text that is not blank has a word, which starts with its first character
    that is not blank, whatever follows the text. -/
theorem words_head (xs : List Char) (h : xs.all isBlank = false) :
    ∃ c, isBlank c = false ∧ ∀ ys, ∃ w ws, words (xs ++ ys) = (c :: w) :: ws := by
  induction xs with
  | nil => cases h
  | cons c xs ih =>
      by_cases hc : isBlank c = true
      · rw [List.all_cons, hc, Bool.true_and] at h
        rcases ih h with ⟨d, hd, hwords⟩
        refine ⟨d, hd, fun ys => ?_⟩
        rcases hwords ys with ⟨w, ws, hws⟩
        refine ⟨w, ws, ?_⟩
        rw [← hws, List.cons_append, words, wordsFrom, if_pos hc]
        rfl
      · refine ⟨c, Bool.eq_false_iff.mpr hc, fun ys => ?_⟩
        -- The word under way keeps its first character until it ends.
        have hfrom : ∀ cs word, ∃ w ws, wordsFrom (word ++ [c]) cs = (c :: w) :: ws := by
          intro cs
          induction cs with
          | nil =>
              intro word
              exact ⟨word.reverse, [], by simp [wordsFrom]⟩
          | cons d cs ihcs =>
              intro word
              unfold wordsFrom
              by_cases hd : isBlank d = true
              · exact ⟨word.reverse, wordsFrom [] cs, by simp [hd]⟩
              · rw [if_neg hd]
                exact ihcs (d :: word)
        rcases hfrom (xs ++ ys) [] with ⟨w, ws, hws⟩
        refine ⟨w, ws, ?_⟩
        rw [← hws, List.cons_append, words, wordsFrom, if_neg hc]
        rfl

/-- Characters that are not blank go to the word under way. -/
theorem wordsFrom_append (word w rest : List Char) (hw : ∀ c ∈ w, isBlank c = false) :
    wordsFrom word (w ++ rest) = wordsFrom (w.reverse ++ word) rest := by
  induction w generalizing word with
  | nil => rfl
  | cons c w ih =>
      rw [List.forall_mem_cons] at hw
      have hc : ¬ isBlank c = true := by
        rw [hw.1]
        exact Bool.false_ne_true
      rw [List.cons_append, wordsFrom, if_neg hc, ih _ hw.2, List.reverse_cons,
        List.append_assoc, List.singleton_append]

/-- A word and the words behind a blank. -/
theorem words_cons (w rest : List Char) (hw : ∀ c ∈ w, isBlank c = false) (hne : w ≠ []) :
    words (w ++ ' ' :: rest) = w :: words rest := by
  have hblank : isBlank ' ' = true := by decide
  have hempty : w.reverse.isEmpty = false := by simpa using hne
  rw [words, wordsFrom_append [] w _ hw, List.append_nil, wordsFrom, if_pos hblank, hempty,
    if_neg Bool.false_ne_true, List.reverse_reverse]
  rfl

/-- A text without a blank is one word. -/
theorem words_single (w : List Char) (hw : ∀ c ∈ w, isBlank c = false) (hne : w ≠ []) :
    words w = [w] := by
  have hempty : w.reverse.isEmpty = false := by simpa using hne
  have hfrom := wordsFrom_append [] w [] hw
  rw [List.append_nil] at hfrom
  rw [words, hfrom, List.append_nil, wordsFrom, hempty, if_neg Bool.false_ne_true,
    List.reverse_reverse]

end Words

end Text

section Numbers

/-- Are the four numbers of a cost signed 64-bit numbers? -/
def Cost.inSigned64 (c : Cost) : Bool :=
  Number.inSigned64 c.leakage && Number.inSigned64 c.energy && Number.inSigned64 c.delay &&
    Number.inSigned64 c.area

/-- Letters and digits are not blank. -/
theorem isBlank_of_isAlphanum (c : Char) (h : c.isAlphanum = true) : Text.isBlank c = false := by
  rw [Bool.eq_false_iff]
  intro hblank
  have hkept := normalizeKeyChar_of_isAlphanum c h
  have hmark : normalizeKeyChar c = '_' := by simp [normalizeKeyChar, hblank]
  rw [hkept] at hmark
  exact ne_of_isAlphanum c '_' h (by decide) hmark

/-- A written number is a word. -/
theorem intText_word (n : Int) :
    (∀ c ∈ (toString n).toList, Text.isBlank c = false) ∧ (toString n).toList ≠ [] := by
  have hdigits : ∀ c ∈ Nat.toDigits 10 n.natAbs, Text.isBlank c = false := fun c hc =>
    isBlank_of_isAlphanum c (isAlphanum_toDigits _ c hc)
  rw [intText_toList]
  split
  · rw [List.forall_mem_cons]
    exact ⟨⟨by decide, hdigits⟩, List.cons_ne_nil _ _⟩
  · exact ⟨hdigits, Nat.toDigits_ne_nil⟩

/-- A written number is split into its sign and its digits. -/
theorem splitSign_intText (n : Int) :
    Number.splitSign (toString n).toList = (decide (n < 0), Nat.toDigits 10 n.natAbs) := by
  rw [intText_toList]
  by_cases hn : n < 0
  · simp [hn, Number.splitSign]
  -- A digit is no sign.
  · rcases Text.toDigits_head n.natAbs with ⟨c, cs, hcs, hdigit⟩
    rw [if_neg hn, hcs, decide_eq_false hn]
    unfold Number.splitSign
    split
    · rename_i heq
      cases heq
      cases hdigit
    · rename_i heq
      cases heq
      cases hdigit
    · rfl

/-- A written number is read back. -/
theorem readField?_toString (n : Int) (hn : Number.inSigned64 n = true) :
    readField? (toString n).toList = some n := by
  have hall : (Nat.toDigits 10 n.natAbs).all Char.isDigit = true :=
    List.all_eq_true.mpr (Text.isDigit_toDigits _)
  have hempty : (Nat.toDigits 10 n.natAbs).isEmpty = false := by simp
  -- The sign gives the number back from its size.
  have hvalue : (if decide (n < 0) = true then -((n.natAbs : Nat) : Int) else (n.natAbs : Int))
      = n := by
    split
    · rename_i h
      have hneg := of_decide_eq_true h
      omega
    · rename_i h
      have hpos : ¬ n < 0 := fun hlt => h (decide_eq_true hlt)
      omega
  have hread : Number.readSigned64? (toString n).toList = some n := by
    unfold Number.readSigned64?
    rw [splitSign_intText]
    simp only [hall, hempty, Bool.not_true, Bool.or_false, Bool.false_eq_true, if_false,
      Text.ofDigits_toDigits 10 n.natAbs (by decide) (by decide)]
    rw [hvalue, if_pos hn]
  unfold readField?
  rw [hread]

end Numbers

section Records

/-- A text that a record can have as its key: one word that starts no remark. -/
structure IsRecordKey (key : String) : Prop where
  unblank : ∀ c ∈ key.toList, Text.isBlank c = false
  ne_nil : key.toList ≠ []
  plain : ∀ cs, key.toList ≠ '#' :: cs

/-- A record as a line without its line feed. -/
def recordText (r : String × Cost) : List Char :=
  r.1.toList ++ ' ' :: ((toString r.2.leakage).toList ++ ' ' :: ((toString r.2.energy).toList ++
    ' ' :: ((toString r.2.delay).toList ++ ' ' :: (toString r.2.area).toList)))

/-- A record is written as its text and a line feed. -/
theorem recordLine_toList (r : String × Cost) :
    (recordLine r.1 r.2).toList = recordText r ++ ['\n'] := by
  have hspace : ∀ t : String, (toString t).toList = t.toList := fun _ => rfl
  unfold recordLine Cost.text recordText
  simp only [String.toList_append, hspace]
  simp

/-- The words of a record. -/
theorem words_recordText (r : String × Cost) (hkey : IsRecordKey r.1) :
    Text.words (recordText r) = [r.1.toList, (toString r.2.leakage).toList,
      (toString r.2.energy).toList, (toString r.2.delay).toList, (toString r.2.area).toList] := by
  unfold recordText
  rw [Text.words_cons _ _ hkey.unblank hkey.ne_nil,
    Text.words_cons _ _ (intText_word _).1 (intText_word _).2,
    Text.words_cons _ _ (intText_word _).1 (intText_word _).2,
    Text.words_cons _ _ (intText_word _).1 (intText_word _).2,
    Text.words_single _ (intText_word _).1 (intText_word _).2]

/-- A record is one line. -/
theorem feed_notMem_recordText (r : String × Cost) (hkey : IsRecordKey r.1) :
    '\n' ∉ recordText r := by
  have hword : ∀ cs : List Char, (∀ c ∈ cs, Text.isBlank c = false) → '\n' ∉ cs := by
    intro cs hcs hmem
    exact absurd (hcs _ hmem) (by decide)
  have hint := fun n => hword _ (intText_word n).1
  have hspace : ¬ '\n' = ' ' := by decide
  simp only [recordText, List.mem_append, List.mem_cons, not_or]
  exact ⟨hword _ hkey.unblank, hspace, hint _, hspace, hint _, hspace, hint _, hspace, hint _⟩

/-- A written record is read back. -/
theorem readRecord_recordText (r : String × Cost) (hkey : IsRecordKey r.1)
    (hcost : r.2.inSigned64 = true) : readRecord (recordText r) = .ok (some r) := by
  simp only [Cost.inSigned64, Bool.and_eq_true] at hcost
  have hfields : readFields [(toString r.2.leakage).toList, (toString r.2.energy).toList,
      (toString r.2.delay).toList, (toString r.2.area).toList]
        = .ok [r.2.leakage, r.2.energy, r.2.delay, r.2.area] := by
    simp only [readFields, readField?_toString _ hcost.1.1.1, readField?_toString _ hcost.1.1.2,
      readField?_toString _ hcost.1.2, readField?_toString _ hcost.2]
    rfl
  unfold readRecord
  rw [words_recordText r hkey]
  -- The reader looks for an empty line, a remark and a key, in this order.
  split
  · rename_i heq
    cases heq
  · rename_i cs rest heq
    exact absurd (List.cons.inj heq).1 (hkey.plain cs)
  · rename_i key fields _ heq
    cases heq
    rw [hfields]
    simp [bind, Except.bind, pure, Except.pure]

/-- Fields are read one by one. -/
theorem readFields_length (fields : List (List Char)) (ns : List Int)
    (h : readFields fields = .ok ns) : ns.length = fields.length := by
  induction fields generalizing ns with
  | nil =>
      cases h
      rfl
  | cons field rest ih =>
      rw [readFields] at h
      split at h
      · rcases except_bind_ok_iff.mp h with ⟨ms, hms, hns⟩
        cases hns
        rw [List.length_cons, List.length_cons, ih ms hms]
      · cases h

/-- A line with a record has five words. -/
theorem words_of_readRecord_some (cs : List Char) (r : String × Cost)
    (h : readRecord cs = .ok (some r)) : (Text.words cs).length = 5 := by
  unfold readRecord at h
  split at h
  · cases h
  · cases h
  · rename_i key fields _ hwords
    split at h
    · cases h
    · rename_i hcount
      rw [hwords, List.length_cons]
      omega

/-- A line that can be read and has no record is blank or a remark. -/
theorem words_of_readRecord_none (cs : List Char) (h : readRecord cs = .ok none) :
    Text.words cs = [] ∨ ∃ w ws, Text.words cs = ('#' :: w) :: ws := by
  unfold readRecord at h
  split at h
  · rename_i hwords
    exact Or.inl hwords
  · rename_i w ws hwords
    exact Or.inr ⟨w, ws, hwords⟩
  · -- Four fields are read as four numbers, so there is a record.
    rename_i key fields _ hwords
    split at h
    · cases h
    · rename_i hcount
      rcases except_bind_ok_iff.mp h with ⟨ns, hns, h⟩
      have hlen := readFields_length fields ns hns
      split at h
      · cases h
      · rename_i hnot
        match ns, hlen, hnot with
        | [a, b, c, d], _, hnot => exact absurd rfl (hnot a b c d)
        | [], hlen, _ => simp only [List.length_nil] at hlen; omega
        | [_], hlen, _ => simp only [List.length_cons, List.length_nil] at hlen; omega
        | [_, _], hlen, _ => simp only [List.length_cons, List.length_nil] at hlen; omega
        | [_, _, _], hlen, _ => simp only [List.length_cons, List.length_nil] at hlen; omega
        | _ :: _ :: _ :: _ :: _ :: _, hlen, _ =>
            simp only [List.length_cons] at hlen
            omega

/-- What a line is read as depends on its words. -/
theorem readRecord_congr (cs ds : List Char) (h : Text.words cs = Text.words ds) :
    readRecord cs = readRecord ds := by
  unfold readRecord
  rw [h]

/-- A record that runs into the end of a line that is not blank is not read:
    either it is part of a remark, or the line has too many words. -/
theorem readRecord_run_together (cs : List Char) (before : Option (String × Cost))
    (r : String × Cost) (hkey : IsRecordKey r.1) (hread : readRecord cs = .ok before)
    (hblank : cs.all Text.isBlank = false) (result : Option (String × Cost))
    (h : readRecord (cs ++ recordText r) = .ok result) : before = none ∧ result = none := by
  rcases Text.words_head cs hblank with ⟨c, _, hhead⟩
  rcases hhead (recordText r) with ⟨w, ws, hws⟩
  cases before with
  | some old =>
      have hold := words_of_readRecord_some cs old hread
      have hlen := Text.words_append_length cs (recordText r)
      rw [hold, words_recordText r hkey] at hlen
      simp only [List.length_cons, List.length_nil] at hlen
      -- Nine words or more are no record, so the line is a remark; but then it
      -- was one before.
      cases result with
      | some new =>
          have hnew := words_of_readRecord_some _ new h
          omega
      | none =>
          rcases words_of_readRecord_none _ h with hnil | ⟨w', ws', hremark⟩
          · rw [hws] at hnil
            cases hnil
          · rw [hws] at hremark
            cases hremark
            rcases hhead [] with ⟨v, vs, hvs⟩
            rw [List.append_nil] at hvs
            unfold readRecord at hread
            rw [hvs] at hread
            cases hread
  | none =>
      -- A line that is not blank and has no record is a remark, and stays one.
      refine ⟨rfl, ?_⟩
      rcases hhead [] with ⟨v, vs, hvs⟩
      rw [List.append_nil] at hvs
      rcases words_of_readRecord_none cs hread with hnil | ⟨w', ws', hremark⟩
      · rw [hvs] at hnil
        cases hnil
      · rw [hvs] at hremark
        cases hremark
        unfold readRecord at h
        rw [hws] at h
        cases h
        rfl

end Records

section Files

/-- The lines after the first are read on their own. -/
theorem readLines_cons_ok_iff (path : String) (n : Nat) (cs : List Char) (rest : List (List Char))
    (rs : List (String × Cost)) : readLines path n (cs :: rest) = .ok rs ↔
      ∃ r more, readRecord cs = .ok r ∧ readLines path (n + 1) rest = .ok more ∧
        rs = r.toList ++ more := by
  rw [readLines]
  cases readRecord cs with
  | error fault => simp
  | ok r =>
      cases r with
      | none => simp
      | some record =>
          simp only [except_bind_ok_iff, except_pure_ok_iff]
          constructor
          · rintro ⟨more, hmore, rfl⟩
            exact ⟨some record, more, rfl, hmore, rfl⟩
          · rintro ⟨r, more, hr, hmore, rfl⟩
            cases hr
            exact ⟨more, hmore, rfl⟩

/-- Lines are read part by part. Their numbers do not matter as long as nothing
    is wrong with them. -/
theorem readLines_append_ok_iff (path : String) (n m : Nat) (xs ys : List (List Char))
    (rs : List (String × Cost)) : readLines path n (xs ++ ys) = .ok rs ↔
      ∃ as bs, readLines path n xs = .ok as ∧ readLines path m ys = .ok bs ∧ rs = as ++ bs := by
  -- Numbers of lines only show in faults.
  have hany : ∀ ys : List (List Char), ∀ n m rs, readLines path n ys = .ok rs →
      readLines path m ys = .ok rs := by
    intro ys
    induction ys with
    | nil => exact fun _ _ _ h => h
    | cons cs rest ih =>
        intro n m rs h
        rcases (readLines_cons_ok_iff path n cs rest rs).mp h with ⟨r, more, hr, hmore, rfl⟩
        exact (readLines_cons_ok_iff path m cs rest _).mpr ⟨r, more, hr, ih _ _ _ hmore, rfl⟩
  induction xs generalizing n rs with
  | nil =>
      constructor
      · exact fun h => ⟨[], rs, rfl, hany ys n m rs h, rfl⟩
      · rintro ⟨as, bs, has, hbs, rfl⟩
        cases has
        exact hany ys m n bs hbs
  | cons cs rest ih =>
      rw [List.cons_append, readLines_cons_ok_iff]
      constructor
      · rintro ⟨r, more, hr, hmore, rfl⟩
        rcases (ih (n + 1) more).mp hmore with ⟨as, bs, has, hbs, rfl⟩
        exact ⟨r.toList ++ as, bs, (readLines_cons_ok_iff _ _ _ _ _).mpr ⟨r, as, hr, has, rfl⟩,
          hbs, (List.append_assoc _ _ _).symm⟩
      · rintro ⟨as, bs, has, hbs, rfl⟩
        rcases (readLines_cons_ok_iff _ _ _ _ _).mp has with ⟨r, more, hr, hmore, rfl⟩
        exact ⟨r, more ++ bs, hr, (ih (n + 1) _).mpr ⟨more, bs, hmore, hbs, rfl⟩,
          List.append_assoc _ _ _⟩

/-- A record as it is added to a file: under the normalized key of an instance,
    with signed 64-bit numbers. -/
structure Storable (r : String × Cost) : Prop where
  key : ∃ c : Component, c.Possible ∧ r.1 = normalizeKey c.key
  cost : r.2.inSigned64 = true

/-- A normalized instance key is letters, digits and marks. -/
theorem Component.normalizeKey_chars (c : Component) (hc : c.Possible) :
    ∀ ch ∈ (normalizeKey c.key).toList, ch.isAlphanum = true ∨ ch = '_' := by
  rcases parts_of_possible c hc with ⟨core, numbers, hparts⟩
  have hpieces : ∀ cs ∈ keyPieces c.key, ∀ ch ∈ cs, ch.isAlphanum = true := by
    rw [hparts.keyPieces_eq]
    intro cs hcs
    simp only [List.mem_append, List.mem_singleton] at hcs
    rcases hcs with (hcs | hcs) | rfl
    · exact hparts.alphanum cs hcs
    · rcases List.mem_map.mp hcs with ⟨n, _, rfl⟩
      exact isAlphanum_toDigits n
    · exact fun ch hch => absurd hch List.not_mem_nil
  -- The key is its pieces, joined by marks.
  have hjoined : ['_'].intercalate (keyPieces c.key) = (normalizeKey c.key).toList :=
    List.intercalate_splitOn '_'
  cases hkey : keyPieces c.key with
  | nil =>
      rw [hkey] at hjoined
      rw [← hjoined]
      exact fun ch hch => absurd hch (by simp)
  | cons first rest =>
      rw [hkey, intercalate_eq_flatMap] at hjoined
      rw [hkey, List.forall_mem_cons] at hpieces
      rw [← hjoined]
      intro ch hch
      rw [List.mem_append, List.mem_flatMap] at hch
      rcases hch with hch | ⟨cs, hcs, hch⟩
      · exact Or.inl (hpieces.1 ch hch)
      · rcases List.mem_cons.mp hch with rfl | hch
        · exact Or.inr rfl
        · exact Or.inl (hpieces.2 cs hcs ch hch)

/-- What is stored has a key that can be read. -/
theorem Storable.isRecordKey {r : String × Cost} (h : Storable r) : IsRecordKey r.1 := by
  rcases h.key with ⟨c, hc, hkey⟩
  have hchars := c.normalizeKey_chars hc
  have hlast := c.normalizeKey_last
  rw [← hkey] at hchars hlast
  refine ⟨fun ch hch => ?_, fun hnil => ?_, fun cs hcs => ?_⟩
  · rcases hchars ch hch with halnum | rfl
    · exact isBlank_of_isAlphanum ch halnum
    · decide
  · rw [hnil] at hlast
    cases hlast
  · rcases hchars '#' (by rw [hcs]; exact List.mem_cons_self) with h | h <;>
      exact absurd h (by decide)

/-- The text of records one after another. -/
def recordLines (rs : List (String × Cost)) : String :=
  String.join (rs.map fun r => recordLine r.1 r.2)

/-- Records stand on lines of their own. -/
theorem recordLines_cons_toList (r : String × Cost) (rs : List (String × Cost)) :
    (recordLines (r :: rs)).toList = recordText r ++ '\n' :: (recordLines rs).toList := by
  unfold recordLines
  rw [String.toList_join, List.map_cons, List.flatMap_cons, ← String.toList_join,
    recordLine_toList, List.append_assoc, List.singleton_append]

/-- Written records are read back. -/
theorem readRecords_recordLines (path : String) (n : Nat) (rs : List (String × Cost))
    (h : ∀ r ∈ rs, Storable r) :
    readLines path n (Text.lines (recordLines rs).toList) = .ok rs := by
  induction rs generalizing n with
  | nil => rfl
  | cons r rs ih =>
      rw [List.forall_mem_cons] at h
      rw [recordLines_cons_toList, Text.lines_cons _ _ (feed_notMem_recordText r h.1.isRecordKey),
        readLines_cons_ok_iff]
      exact ⟨some r, rs, readRecord_recordText r h.1.isRecordKey h.1.cost, ih _ h.2, rfl⟩

/-- A text is its first lines and its last line, also for the reader. -/
theorem readRecords_ok_iff (path : String) (text : String) (rs : List (String × Cost)) :
    readRecords path text = .ok rs ↔ ∃ as last,
      readLines path 1 (Text.lines (Text.firstLines text.toList)) = .ok as ∧
        readRecord (Text.lastLine text.toList) = .ok last ∧ rs = as ++ last.toList := by
  unfold readRecords
  conv_lhs => rw [← Text.firstLines_append_lastLine text.toList]
  rw [Text.lines_append, readLines_append_ok_iff path 1 1,
    Text.lines_single _ (Text.feed_notMem_lastLine text.toList)]
  refine exists_congr fun as => ?_
  by_cases hnil : Text.lastLine text.toList = []
  · rw [hnil]
    constructor
    · rintro ⟨bs, has, hbs, rfl⟩
      cases hbs
      exact ⟨none, has, rfl, rfl⟩
    · rintro ⟨last, has, hlast, rfl⟩
      cases hlast
      exact ⟨[], has, rfl, rfl⟩
  · have hempty : (Text.lastLine text.toList).isEmpty = false := by simpa using hnil
    rw [hempty, if_neg Bool.false_ne_true]
    constructor
    · rintro ⟨bs, has, hbs, rfl⟩
      rcases (readLines_cons_ok_iff _ _ _ _ _).mp hbs with ⟨last, more, hlast, hmore, rfl⟩
      cases hmore
      exact ⟨last, has, hlast, by rw [List.append_nil]⟩
    · rintro ⟨last, has, hlast, rfl⟩
      exact ⟨last.toList, has, (readLines_cons_ok_iff _ _ _ _ _).mpr
        ⟨last, [], hlast, rfl, (List.append_nil _).symm⟩, rfl⟩

/-- What a text with records behind it is read as. The first record shares its
    line with what the text ends in. -/
theorem readRecords_append_ok_iff (path text : String) (r : String × Cost)
    (rs result : List (String × Cost)) (hr : Storable r) (hrs : ∀ x ∈ rs, Storable x) :
    readRecords path (text ++ recordLines (r :: rs)) = .ok result ↔ ∃ as shared,
      readLines path 1 (Text.lines (Text.firstLines text.toList)) = .ok as ∧
        readRecord (Text.lastLine text.toList ++ recordText r) = .ok shared ∧
          result = as ++ (shared.toList ++ rs) := by
  have hfeed : '\n' ∉ Text.lastLine text.toList ++ recordText r := by
    rw [List.mem_append, not_or]
    exact ⟨Text.feed_notMem_lastLine _, feed_notMem_recordText r hr.isRecordKey⟩
  have htext : (text ++ recordLines (r :: rs)).toList = Text.firstLines text.toList ++
      (Text.lastLine text.toList ++ recordText r ++ '\n' :: (recordLines rs).toList) := by
    rw [String.toList_append, recordLines_cons_toList]
    conv_lhs => rw [← Text.firstLines_append_lastLine text.toList]
    simp only [List.append_assoc]
  unfold readRecords
  rw [htext, Text.lines_append, Text.lines_cons _ _ hfeed, readLines_append_ok_iff path 1 1]
  refine exists_congr fun as => ?_
  constructor
  · rintro ⟨bs, has, hbs, rfl⟩
    rcases (readLines_cons_ok_iff _ _ _ _ _).mp hbs with ⟨shared, more, hshared, hmore, rfl⟩
    rw [readRecords_recordLines path _ rs hrs] at hmore
    cases hmore
    exact ⟨shared, has, hshared, rfl⟩
  · rintro ⟨shared, has, hshared, rfl⟩
    exact ⟨shared.toList ++ rs, has, (readLines_cons_ok_iff _ _ _ _ _).mpr
      ⟨shared, rs, hshared, readRecords_recordLines path _ rs hrs, rfl⟩, rfl⟩

/-- Records behind a text that can be read are read back exactly if the last line
    of the text is blank. -/
theorem readRecords_append_iff (path text : String) (before rs : List (String × Cost))
    (hbefore : readRecords path text = .ok before) (hrs : ∀ r ∈ rs, Storable r) (hne : rs ≠ []) :
    readRecords path (text ++ recordLines rs) = .ok (before ++ rs) ↔
      (Text.lastLine text.toList).all Text.isBlank = true := by
  rcases (readRecords_ok_iff path text before).mp hbefore with ⟨as, last, has, hlast, rfl⟩
  cases rs with
  | nil => exact absurd rfl hne
  | cons r rs =>
      rw [List.forall_mem_cons] at hrs
      rw [readRecords_append_ok_iff path text r rs _ hrs.1 hrs.2]
      constructor
      · rintro ⟨as', shared, has', hshared, hresult⟩
        rw [has] at has'
        cases has'
        by_contra hblank
        rcases readRecord_run_together _ last r hrs.1.isRecordKey hlast
          (Bool.eq_false_iff.mpr hblank) shared hshared with ⟨rfl, rfl⟩
        -- The record that was added first is missing.
        have hlen := congrArg List.length hresult
        simp at hlen
      · intro hblank
        have hwords := Text.words_blank _ (recordText r) hblank
        -- A blank line had no record of its own.
        have hnone : last = none := by
          have hnil := Text.words_blank _ [] hblank
          rw [List.append_nil] at hnil
          unfold readRecord at hlast
          rw [hnil] at hlast
          cases hlast
          rfl
        refine ⟨as, some r, has, ?_, ?_⟩
        · rw [readRecord_congr _ _ hwords]
          exact readRecord_recordText r hrs.1.isRecordKey hrs.1.cost
        · rw [hnone]
          simp

/-- Add records to the end of a file, one after another. -/
def Files.appendRecords (path : String) : List (String × Cost) → Files → Except Error Files
  | [], fs => .ok fs
  | r :: rs, fs => do
    let fs ← fs.append path (recordLine r.1 r.2)
    appendRecords path rs fs

/-- Texts may be appended in two parts. -/
theorem Contents.append_append (c : Contents) (s t : String) :
    (c.append s).append t = c.append (s ++ t) := by
  cases c with
  | text u => rw [append, append, append, String.append_assoc]
  | malformed fault => rfl

/-- Records that are added to a file follow what it holds. -/
theorem Files.appendRecords_eq (fs : Files) (path : String) (p : Place)
    (rs : List (String × Cost)) (hp : fs.place? path = some p) (hne : rs ≠ []) :
    fs.appendRecords path rs
      = .ok (fs.set p (((fs.entries.lookup p).getD (.text "")).append (recordLines rs))) := by
  induction rs generalizing fs with
  | nil => exact absurd rfl hne
  | cons r rs ih =>
      have happend := (append_ok_iff fs _ path (recordLine r.1 r.2)).mpr ⟨p, hp, rfl⟩
      rw [appendRecords, happend]
      change appendRecords path rs _ = _
      cases rs with
      | nil =>
          have hlines : recordLines [r] = recordLine r.1 r.2 := by simp [recordLines]
          rw [hlines]
          rfl
      | cons r' rs =>
          have hlines : recordLines (r :: r' :: rs)
              = recordLine r.1 r.2 ++ recordLines (r' :: rs) := by simp [recordLines]
          -- The file that was written first is the one that the rest is appended to.
          rw [ih _ ((place?_set hp _ path).trans hp) (List.cons_ne_nil _ _), lookup_set, if_pos rfl,
            Option.getD_some, set_set, Contents.append_append, hlines]

/-- Records that are added to a file that can be read are read back behind those
    that it had if and only if there are none or the last line of the file is
    blank. -/
theorem appended_records_are_read_iff (fs : Files) (path text : String)
    (before rs : List (String × Cost)) (hfile : fs.read path = .ok (.text text))
    (hbefore : readRecords path text = .ok before) (hrs : ∀ r ∈ rs, Storable r) :
    ∃ fs', fs.appendRecords path rs = .ok fs' ∧
      (loadRecords fs' path = .ok (before ++ rs) ↔
        rs = [] ∨ (Text.lastLine text.toList).all Text.isBlank = true) := by
  by_cases hnil : rs = []
  · rw [hnil]
    refine ⟨fs, rfl, fun _ => Or.inl rfl, fun _ => ?_⟩
    unfold loadRecords
    rw [hfile, List.append_nil]
    exact hbefore
  · rcases (fs.read_ok_iff path (.text text)).mp hfile with ⟨p, hp, hlook⟩
    have happend := fs.appendRecords_eq path p rs hp hnil
    rw [hlook, Option.getD_some] at happend
    refine ⟨_, happend, ?_⟩
    unfold loadRecords
    rw [Files.read_set hp, Contents.append, or_iff_right hnil]
    exact readRecords_append_iff path text before rs hbefore hrs hnil

/-- A file of one record without a line feed at its end: a record that is added
    to it is not read back. -/
theorem added_record_runs_into_last_line :
    let fs := Files.ofList [("custom.metrics", .text "sink_8_ 1 2 3 4")]
    let r : String × Cost := ("func_0add1_8_8_8_8_8_", ⟨10, 20, 30, 40⟩)
    loadRecords fs "custom.metrics" = .ok [("sink_8_", ⟨1, 2, 3, 4⟩)] ∧
      ∃ fs', fs.appendRecords "custom.metrics" [r] = .ok fs' ∧
        loadRecords fs' "custom.metrics" ≠ .ok [("sink_8_", ⟨1, 2, 3, 4⟩), r] := by
  intro fs r
  let scope : Scope := ⟨[⟨"a", .int 8, .port .input, 0⟩, ⟨"b", .int 8, .port .input, 1⟩,
    ⟨"x", .int 8, .port .output, 2⟩]⟩
  let el : Element ChannelId Expr := .func ⟨.binary .add (.var 0) (.var 1), none, some 2⟩
  let fu : FunctionalUnit := ⟨"func_0add1_8", [8, 8], [⟨0, .binary .add (.arg 0) (.arg 1), 8⟩],
    [⟨0, 8, none⟩], []⟩
  have hread : fs.read "custom.metrics" = .ok (.text "sink_8_ 1 2 3 4") := by
    decide +kernel
  have hbefore : readRecords "custom.metrics" "sink_8_ 1 2 3 4"
      = .ok [("sink_8_", ⟨1, 2, 3, 4⟩)] := by decide +kernel
  have hunit : el.unit? scope = some fu := by decide +kernel
  -- The record is one that a run really adds: that of an adder.
  have hstorable : Storable r := ⟨⟨.unit fu, .unit scope el fu hunit, by decide +kernel⟩, by decide⟩
  refine ⟨?_, ?_⟩
  · unfold loadRecords
    rw [hread]
    exact hbefore
  · rcases appended_records_are_read_iff fs "custom.metrics" _ _ [r] hread hbefore
      (by simpa using hstorable) with ⟨fs', happend, hiff⟩
    refine ⟨fs', happend, fun h => ?_⟩
    exact absurd (hiff.mp h) (by decide)

end Files

end DataflowCircuit
