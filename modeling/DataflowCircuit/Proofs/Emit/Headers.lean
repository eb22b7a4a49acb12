import DataflowCircuit.Proofs.Cost.Records
import DataflowCircuit.Proofs.Emit.BodyTexts
import DataflowCircuit.Proofs.Source.Reading

/-!
# Headers of Templates

Instances and templates are written by different parts of the program, and what
has to agree between them is only visible in the text of a template: the list of
its parameters and the ports of its header. This file reads both back from the
text, so that statements about instances can be made about what is printed
rather than about the data it was printed from.

The reader looks for the first exported process, because the text of a buffer
holds a second process that is not exported, and it is strict about the form of
a port. It reads the variables of a template as well, since the width of a
result appears in the text of a unit nowhere else.

A header is read back whatever its parameters and ports are, as long as their
names are plain, and lines that export nothing may stand before it.

## Main definitions

* `Signature`, `Signature.read?`: The parameters and ports of a template, as
  data and read from a text.
* `LocalDef`, `declaredLocals`: The variables of a template.
* `argumentsOf`: The arguments of an instance key.
* `PrintedPort`, `paramLine`, `portLine`: A header as it is printed.

## Theorems

* `PrintedPort.readPort?_text`: A printed port is read back.
* `read_header`: A printed header is read back.
* `read?_lines`: So is a text that holds one.
-/

namespace DataflowCircuit

open Source

/-- A port in the header of a template. -/
structure PortDef where
  direction : Direction
  /-- The parameter that gives its width. -/
  width : String
  /-- Its name, without the dimension of an array. -/
  name : String
  deriving DecidableEq, Repr

/-- What the header of a template declares. -/
structure Signature where
  name : String
  params : List String
  ports : List PortDef
  deriving DecidableEq, Repr

/-- A variable of a template, with the parameter that gives its width unless it
    is a truth value. -/
structure LocalDef where
  name : String
  width : Option String
  deriving DecidableEq, Repr

section Reading

namespace Text

/-- The text before and behind the first mark. -/
def cut (mark : Char) (cs : List Char) : List Char × List Char :=
  (cs.takeWhile (· ≠ mark), (cs.dropWhile (· ≠ mark)).drop 1)

/-- The parts of a text between marks, each from its first solid character. -/
def parts (mark : Char) (cs : List Char) : List (List Char) :=
  (cs.splitOn mark).map trimStart

end Text

/-- The direction that a mark stands for. -/
def readDirection? (mark : Char) : Option Direction :=
  if mark = '?' then some .input else if mark = '!' then some .output else none

/-- A port of a header. -/
def readPort? (cs : List Char) : Option PortDef := do
  let cs ← "chan".toList.isPrefixOf? cs
  let direction ← readDirection? (cs.headD ' ')
  let cs ← "(int<".toList.isPrefixOf? cs.tail
  let name ← ")".toList.isPrefixOf? (Text.cut '>' cs).2
  return ⟨direction, String.ofList (Text.cut '>' cs).1,
    String.ofList ((Text.trimStart name).takeWhile (· ≠ '['))⟩

/-- A text without the parenthesis that closes it. -/
def unclose? (cs : List Char) : Option (List Char) :=
  if cs.getLast? = some ')' then some cs.dropLast else none

/-- The header in two lines, if they are one. -/
def readHeader? (first second : List Char) : Option Signature := do
  let params ← "template<pint ".toList.isPrefixOf? first
  let head ← "export defproc ".toList.isPrefixOf? second
  let inner ← unclose? (Text.cut '(' head).2
  let ports ← (Text.parts ';' inner).mapM readPort?
  return ⟨String.ofList (Text.cut '(' head).1,
    (Text.parts ',' (Text.cut '>' params).1).map String.ofList, ports⟩

/-- The first header in a list of lines. -/
def findHeader? : List (List Char) → Option Signature
  | first :: second :: rest => (readHeader? first second).or (findHeader? (second :: rest))
  | _ => none

/-- The signature of the first exported process of a text. -/
def Signature.read? (text : String) : Option Signature :=
  findHeader? (Text.lines text.toList)

/-- The variable that a line declares. -/
def readLocal? (line : List Char) : Option LocalDef :=
  match "  int<".toList.isPrefixOf? line with
  | some cs => some ⟨String.ofList ((Text.trimStart (Text.cut '>' cs).2).takeWhile (· ≠ ';')),
      some (String.ofList (Text.cut '>' cs).1)⟩
  | none => ("  bool ".toList.isPrefixOf? line).map fun cs =>
      ⟨String.ofList (cs.takeWhile (· ≠ ';')), none⟩

/-- The variables that a text declares before its program. -/
def declaredLocals (text : String) : List LocalDef :=
  ((Text.lines text.toList).takeWhile (· ≠ "  chp \x7b".toList)).filterMap readLocal?

/-- The arguments of an instance key: the numbers between its brackets. -/
def argumentsOf (key : String) : List Nat :=
  ((Text.cut '>' (Text.cut '<' key.toList).2).1.splitOn ',').map (Text.ofDigits 10)

end Reading

section Written

namespace Text

/-- A text is cut at its first mark. -/
theorem cut_append (mark : Char) (xs ys : List Char) (h : mark ∉ xs) :
    cut mark (xs ++ mark :: ys) = (xs, ys) := by
  have hall : ∀ c ∈ xs, decide (c ≠ mark) = true := by
    intro c hc
    refine decide_eq_true ?_
    rintro rfl
    exact h hc
  unfold cut
  rw [List.takeWhile_append_of_pos hall, List.dropWhile_append_of_pos hall]
  simp

/-- A blank in front is left out. -/
theorem trimStart_space (cs : List Char) : trimStart (' ' :: cs) = trimStart cs :=
  List.dropWhile_cons_of_pos (by decide)

/-- Nothing is left out of a text without blanks. -/
theorem trimStart_alphanum (cs : List Char) (h : ∀ c ∈ cs, c.isAlphanum = true) :
    trimStart cs = cs := by
  cases cs with
  | nil => rfl
  | cons c cs =>
      refine List.dropWhile_cons_of_neg ?_
      rw [isBlank_of_isAlphanum c (h c List.mem_cons_self)]
      exact Bool.false_ne_true

/-- Parts with a mark and a blank between them are read back. -/
theorem parts_joined (mark : Char) (texts : List (List Char)) (hne : texts ≠ [])
    (hmark : ∀ t ∈ texts, mark ∉ t) (hsolid : ∀ t ∈ texts, trimStart t = t)
    (hblank : mark ≠ ' ') : parts mark ([mark, ' '].intercalate texts) = texts := by
  cases texts with
  | nil => exact absurd rfl hne
  | cons first rest =>
      -- Behind the first text every mark is followed by a blank.
      have hjoin : ∀ (ts : List (List Char)) (t : List Char),
          [mark, ' '].intercalate (t :: ts)
            = t ++ (ts.map (' ' :: ·)).flatMap (mark :: ·) := by
        intro ts
        induction ts with
        | nil => simp
        | cons u ts ih =>
            intro t
            rw [List.intercalate_cons_cons, ih u]
            simp
      rw [List.forall_mem_cons] at hmark hsolid
      have hmarks : ∀ t ∈ rest.map (' ' :: ·), mark ∉ t := by
        intro t ht
        rcases List.mem_map.mp ht with ⟨u, hu, rfl⟩
        rw [List.mem_cons, not_or]
        exact ⟨hblank, hmark.2 u hu⟩
      have htrim : ∀ t ∈ rest, trimStart (' ' :: t) = t := fun t ht =>
        (trimStart_space t).trans (hsolid.2 t ht)
      unfold parts
      rw [hjoin, splitOn_flatMap mark first _ hmark.1 hmarks, List.map_cons, hsolid.1, List.map_map]
      refine congrArg (first :: ·) ?_
      conv_rhs => rw [← List.map_id rest]
      exact List.map_congr_left htrim

end Text

/-- A text of letters and digits. -/
def IsPlain (text : String) : Prop :=
  ∀ c ∈ text.toList, c.isAlphanum = true

instance (text : String) : Decidable (IsPlain text) :=
  decidable_of_iff (text.toList.all Char.isAlphanum = true) List.all_eq_true

/-- A port as a header prints it: with or without a blank before its name, and
    with the dimension of an array behind it. -/
structure PrintedPort where
  port : PortDef
  spaced : Bool
  dimension : Option String

namespace PrintedPort

/-- What is printed for a port. -/
def text (q : PrintedPort) : String :=
  "chan" ++ q.port.direction.symbol ++ "(int<" ++ q.port.width ++ ">)" ++
    (if q.spaced then " " else "") ++ q.port.name ++
      q.dimension.elim "" fun n => "[" ++ n ++ "]"

/-- The names of a port are plain. -/
structure Plain (q : PrintedPort) : Prop where
  width : IsPlain q.port.width
  name : IsPlain q.port.name
  dimension : ∀ n ∈ q.dimension, IsPlain n

variable (q : PrintedPort)

/-- A printed port, piece by piece. -/
theorem text_toList : q.text.toList = 'c' :: 'h' :: 'a' :: 'n' ::
    (q.port.direction.symbol.toList ++ '(' :: 'i' :: 'n' :: 't' :: '<' ::
      (q.port.width.toList ++ '>' :: ')' :: ((if q.spaced then [' '] else []) ++
        (q.port.name.toList ++ q.dimension.elim [] fun n => '[' :: (n.toList ++ [']']))))) := by
  rcases q with ⟨port, spaced, dimension⟩
  cases spaced <;> cases dimension <;> simp [text]

/-- A printed port is read back. -/
theorem readPort?_text (hq : q.Plain) : readPort? q.text.toList = some q.port := by
  have hwidth : '>' ∉ q.port.width.toList := notMem_of_isAlphanum '>' (by decide) _ hq.width
  have hname : ∀ c ∈ q.port.name.toList, decide (c ≠ '[') = true := by
    intro c hc
    exact decide_eq_true (ne_of_isAlphanum c '[' (hq.name c hc) (by decide))
  -- The name starts behind the blank and ends before the dimension.
  have htrim : ∀ rest, Text.trimStart (q.port.name.toList ++ '[' :: rest)
      = q.port.name.toList ++ '[' :: rest := by
    intro rest
    cases hcs : q.port.name.toList with
    | nil => exact List.dropWhile_cons_of_neg (by decide)
    | cons c cs =>
        refine List.dropWhile_cons_of_neg ?_
        rw [isBlank_of_isAlphanum c (hq.name c (by rw [hcs]; exact List.mem_cons_self))]
        exact Bool.false_ne_true
  have hdimension : (Text.trimStart (q.port.name.toList ++
      q.dimension.elim [] fun n => '[' :: (n.toList ++ [']']))).takeWhile (· ≠ '[')
        = q.port.name.toList := by
    cases q.dimension with
    | none =>
        rw [Option.elim_none, List.append_nil, Text.trimStart_alphanum _ hq.name,
          List.takeWhile_eq_self_iff.mpr hname]
    | some n =>
        rw [Option.elim_some, htrim, List.takeWhile_append_of_pos hname]
        simp
  have hspaced : ∀ cs,
      (Text.trimStart ((if q.spaced then [' '] else []) ++ cs)).takeWhile (· ≠ '[')
        = (Text.trimStart cs).takeWhile (· ≠ '[') := by
    intro cs
    cases q.spaced with
    | false => rfl
    | true => exact congrArg _ (Text.trimStart_space cs)
  -- Everything else is fixed, and reading goes from one fixed piece to the next.
  have hfirst : ∀ rest, "chan".toList.isPrefixOf? ('c' :: 'h' :: 'a' :: 'n' :: rest) = some rest :=
    fun _ => rfl
  have hopen : ∀ rest, "(int<".toList.isPrefixOf? ('(' :: 'i' :: 'n' :: 't' :: '<' :: rest)
      = some rest := fun _ => rfl
  have hclose : ∀ rest, ")".toList.isPrefixOf? (')' :: rest) = some rest := fun _ => rfl
  have hmark : q.port.direction.symbol.toList
      = [if q.port.direction = .input then '?' else '!'] := by
    cases q.port.direction <;> rfl
  have hread : readDirection? (if q.port.direction = .input then '?' else '!')
      = some q.port.direction := by
    cases q.port.direction <;> rfl
  rw [text_toList, hmark]
  unfold readPort?
  simp only [hfirst, Option.bind_eq_bind, Option.bind_some, List.singleton_append, List.headD_cons,
    hread, List.tail_cons, hopen, Text.cut_append '>' _ _ hwidth, hclose, hspaced, hdimension,
    String.ofList_toList]
  rfl

/-- No line feed and no semicolon is in a printed port. -/
theorem notMem_text (hq : q.Plain) (mark : Char) (hmark : mark = ';' ∨ mark = '\n') :
    mark ∉ q.text.toList := by
  have hplain : mark.isAlphanum = false := by
    rcases hmark with rfl | rfl <;> decide
  have hwidth := notMem_of_isAlphanum mark hplain _ hq.width
  have hname := notMem_of_isAlphanum mark hplain _ hq.name
  have hsymbol : mark ∉ q.port.direction.symbol.toList := by
    rcases hmark with rfl | rfl <;> cases q.port.direction <;> decide
  have hblank : mark ∉ (if q.spaced then [' '] else []) := by
    rcases hmark with rfl | rfl <;> cases q.spaced <;> decide
  have hdimension : mark ∉ q.dimension.elim [] fun n => '[' :: (n.toList ++ [']']) := by
    cases hd : q.dimension with
    | none => exact List.not_mem_nil
    | some n =>
        have hn := notMem_of_isAlphanum mark hplain _ (hq.dimension n hd)
        rcases hmark with rfl | rfl <;> simp [hn]
  rw [text_toList]
  rcases hmark with rfl | rfl <;> simp [hsymbol, hwidth, hblank, hname, hdimension]

/-- Printed ports are read back one by one. -/
theorem readPorts_text (ports : List PrintedPort) (h : ∀ q ∈ ports, q.Plain) :
    (ports.map fun q => q.text.toList).mapM readPort? = some (ports.map port) := by
  induction ports with
  | nil => rfl
  | cons q ports ih =>
      rw [List.forall_mem_cons] at h
      rw [List.map_cons, List.mapM_cons, q.readPort?_text h.1, ih h.2]
      rfl

end PrintedPort

/-- The first line of a header. -/
def paramLine (params : List String) : String :=
  "template<pint " ++ String.intercalate ", " params ++ ">"

/-- The second line of a header. -/
def portLine (name : String) (ports : List PrintedPort) : String :=
  "export defproc " ++ name ++ "(" ++
    String.intercalate "; " (ports.map PrintedPort.text) ++ ")"

/-- The first line, as it is taken apart. -/
theorem paramLine_toList (params : List String) :
    (paramLine params).toList = "template<pint ".toList ++
      ([',', ' '].intercalate (params.map String.toList) ++ ['>']) := by
  unfold paramLine
  rw [String.toList_append, String.toList_append, String.toList_intercalate, List.append_assoc]
  rfl

/-- The second line, as it is taken apart. -/
theorem portLine_toList (name : String) (ports : List PrintedPort) :
    (portLine name ports).toList = "export defproc ".toList ++ (name.toList ++ '(' ::
      ([';', ' '].intercalate (ports.map fun q => q.text.toList) ++ [')'])) := by
  unfold portLine
  simp only [String.toList_append, String.toList_intercalate, List.map_map, List.append_assoc]
  rfl

/-- What can be printed in a header: a name that ends at the parenthesis, and at
    least one parameter and one port. -/
structure Signature.Printable (name : String) (params : List String)
    (ports : List PrintedPort) : Prop where
  name : '(' ∉ name.toList ∧ '\n' ∉ name.toList
  params_ne : params ≠ []
  params : ∀ t ∈ params, IsPlain t
  ports_ne : ports ≠ []
  ports : ∀ q ∈ ports, q.Plain

variable {name : String} {params : List String} {ports : List PrintedPort}

/-- A printed header is read back. -/
theorem read_header (h : Signature.Printable name params ports) :
    readHeader? (paramLine params).toList (portLine name ports).toList
      = some ⟨name, params, ports.map PrintedPort.port⟩ := by
  -- Every piece is read with what follows it left over.
  have hskips : ∀ w rest : List Char, w.isPrefixOf? (w ++ rest) = some rest := fun w rest =>
    (isPrefixOf?_eq_some_iff w _ rest).mpr rfl
  have hclosed : ∀ cs : List Char, unclose? (cs ++ [')']) = some cs := fun cs => by
    simp [unclose?]
  -- The closing bracket is in no parameter, so the first one ends the list.
  have hbracket : '>' ∉ [',', ' '].intercalate (params.map String.toList) := by
    refine notMem_intercalate '>' _ _ (by decide) fun cs hcs => ?_
    rcases List.mem_map.mp hcs with ⟨t, ht, rfl⟩
    exact notMem_of_isAlphanum '>' (by decide) _ (h.params t ht)
  have hparts : Text.parts ',' ([',', ' '].intercalate (params.map String.toList))
      = params.map String.toList := by
    refine Text.parts_joined ',' _ (by simpa using h.params_ne) ?_ ?_ (by decide)
    · intro cs hcs
      rcases List.mem_map.mp hcs with ⟨t, ht, rfl⟩
      exact notMem_of_isAlphanum ',' (by decide) _ (h.params t ht)
    · intro cs hcs
      rcases List.mem_map.mp hcs with ⟨t, ht, rfl⟩
      exact Text.trimStart_alphanum _ (h.params t ht)
  -- A port starts with a letter, so nothing of it is trimmed.
  have hpieces : Text.parts ';' ([';', ' '].intercalate
      (ports.map fun q => q.text.toList)) = ports.map fun q => q.text.toList := by
    refine Text.parts_joined ';' _ (by simpa using h.ports_ne) ?_ ?_ (by decide)
    · intro cs hcs
      rcases List.mem_map.mp hcs with ⟨q, hq, rfl⟩
      exact q.notMem_text (h.ports q hq) ';' (Or.inl rfl)
    · intro cs hcs
      rcases List.mem_map.mp hcs with ⟨q, hq, rfl⟩
      rw [PrintedPort.text_toList]
      exact List.dropWhile_cons_of_neg (by decide)
  have hnames : (params.map String.toList).map String.ofList = params := by
    rw [List.map_map]
    conv_rhs => rw [← List.map_id params]
    exact List.map_congr_left fun t _ => String.ofList_toList
  rw [paramLine_toList, portLine_toList]
  unfold readHeader?
  simp only [hskips, Option.bind_eq_bind, Option.bind_some, Text.cut_append '(' _ _ h.name.1,
    Text.cut_append '>' _ _ hbracket, hclosed, hpieces,
    PrintedPort.readPorts_text ports h.ports, hparts, hnames, String.ofList_toList]
  rfl

/-- The lines of a header are lines of a text. -/
theorem feed_notMem_header (h : Signature.Printable name params ports) :
    '\n' ∉ (paramLine params).toList ∧ '\n' ∉ (portLine name ports).toList := by
  have hparams : '\n' ∉ [',', ' '].intercalate (params.map String.toList) := by
    refine notMem_intercalate '\n' _ _ (by decide) fun cs hcs => ?_
    rcases List.mem_map.mp hcs with ⟨t, ht, rfl⟩
    exact notMem_of_isAlphanum '\n' (by decide) _ (h.params t ht)
  have hports : '\n' ∉ [';', ' '].intercalate (ports.map fun q => q.text.toList) := by
    refine notMem_intercalate '\n' _ _ (by decide) fun cs hcs => ?_
    rcases List.mem_map.mp hcs with ⟨q, hq, rfl⟩
    exact q.notMem_text (h.ports q hq) '\n' (Or.inr rfl)
  rw [paramLine_toList, portLine_toList]
  simp [hparams, hports, h.name.2]

/-- A written line ends in a line feed. -/
theorem lines_toList (first : String) (rest : List String) :
    (Emit.lines (first :: rest)).toList = first.toList ++ '\n' :: (Emit.lines rest).toList := by
  unfold Emit.lines
  rw [List.map_cons, String.join_cons, String.toList_append, String.toList_append,
    List.append_assoc]
  rfl

/-- The lines of a written text. -/
theorem lines_written (before rest : List String) (h : ∀ l ∈ before, '\n' ∉ l.toList) :
    Text.lines (Emit.lines (before ++ rest)).toList
      = before.map String.toList ++ Text.lines (Emit.lines rest).toList := by
  induction before with
  | nil => rfl
  | cons l before ih =>
      rw [List.forall_mem_cons] at h
      rw [List.cons_append, lines_toList, Text.lines_cons _ _ h.1, ih h.2]
      rfl

/-- A line that starts no header: it is one line and exports nothing. -/
def IsHeaderless (line : String) : Prop :=
  '\n' ∉ line.toList ∧ "export defproc ".toList.isPrefixOf? line.toList = none

instance (line : String) : Decidable (IsHeaderless line) :=
  inferInstanceAs (Decidable (_ ∧ _))

/-- Lines are no header if the second exports nothing. -/
theorem readHeader?_none (first second : List Char)
    (h : "export defproc ".toList.isPrefixOf? second = none) :
    readHeader? first second = none := by
  unfold readHeader?
  cases "template<pint ".toList.isPrefixOf? first with
  | none => rfl
  | some params =>
      rw [Option.bind_eq_bind, Option.bind_some, h]
      rfl

/-- A header is found behind lines that export nothing. -/
theorem findHeader?_behind (before : List (List Char)) (first second : List Char)
    (rest : List (List Char)) (s : Signature)
    (hbefore : ∀ l ∈ before, "export defproc ".toList.isPrefixOf? l = none)
    (hfirst : "export defproc ".toList.isPrefixOf? first = none)
    (h : readHeader? first second = some s) :
    findHeader? (before ++ first :: second :: rest) = some s := by
  induction before with
  | nil =>
      rw [List.nil_append, findHeader?, h]
      rfl
  | cons l before ih =>
      rw [List.forall_mem_cons] at hbefore
      -- A header is two lines, so the last line before it is tried with its first one.
      cases before with
      | nil =>
          rw [List.singleton_append, findHeader?, readHeader?_none l first hfirst]
          exact ih hbefore.2
      | cons l' before =>
          rw [List.cons_append, List.cons_append, findHeader?,
            readHeader?_none l l' (hbefore.2 l' List.mem_cons_self)]
          exact ih hbefore.2

/-- A text with a printed header has the signature that is printed. -/
theorem read?_lines (before rest : List String) (hbefore : ∀ l ∈ before, IsHeaderless l)
    (h : Signature.Printable name params ports) :
    Signature.read? (Emit.lines (before ++ paramLine params :: portLine name ports :: rest))
      = some ⟨name, params, ports.map PrintedPort.port⟩ := by
  rcases feed_notMem_header h with ⟨hfirst, hsecond⟩
  have hskip : ∀ l ∈ before.map String.toList,
      "export defproc ".toList.isPrefixOf? l = none := by
    intro l hl
    rcases List.mem_map.mp hl with ⟨t, ht, rfl⟩
    exact (hbefore t ht).2
  -- The first line of a header is tried as a second one too, and exports nothing.
  have hparam : "export defproc ".toList.isPrefixOf? (paramLine params).toList = none := by
    rw [paramLine_toList]
    rfl
  unfold Signature.read?
  rw [lines_written before _ fun l hl => (hbefore l hl).1, lines_toList, lines_toList,
    Text.lines_cons _ _ hfirst, Text.lines_cons _ _ hsecond]
  exact findHeader?_behind _ _ _ _ _ hskip hparam (read_header h)

end Written

end DataflowCircuit
