import DataflowCircuit.Proofs.Emit.Headers

/-!
# What the Text of a Template Declares

What is expected to be read from the text of a template is a table with one entry
for each kind of template: its parameters, and its ports as they are printed. The
table is compared with the printer line by line, and since a printed header is
read back whatever its ports are, nothing else has to be known about the printer.

The other side of an instance is its key. The arguments between its brackets are
the parameters of its component, in the order of the parameters in the header.

## Main definitions

* `TemplateBody.params`, `TemplateBody.printedPorts`: The table.
* `Template.signature`, `FunctionalUnit.locals`: What is expected to be read.
* `Component.Formed`: A component that has a header.
* `Signature.value?`: The value of a parameter for given arguments.

## Theorems

* `Component.read_render`: The text of a template has the expected signature.
* `Component.argumentsOf_key`: The arguments of a key are the parameters.
* `Component.params_length`: There are as many as the header has parameters.
* `value?_func`: The parameters of a unit have their values in order.
* `FunctionalUnit.locals_render`: The text of a unit declares the expected
  variables.
-/

namespace DataflowCircuit

open Source

section Templates

open Emit

/-- A port that is no array. -/
def dataPort (direction : Direction) (width name : String) (spaced : Bool) : PrintedPort :=
  ⟨⟨direction, width, name⟩, spaced, none⟩

/-- A port that the template reads. -/
abbrev inPort : String → String → Bool → PrintedPort :=
  dataPort .input

/-- A port that the template writes. -/
abbrev outPort : String → String → Bool → PrintedPort :=
  dataPort .output

namespace TemplateBody

/-- The parameters of a template. -/
def params : TemplateBody → List String
  | .copy => ["W", "N"]
  | .sink => ["W"]
  | .source => ["V", "W"]
  | .buffer => ["D", "W"]
  | .split _ | .merge _ => ["W1", "W2"]
  | .mixer _ => ["W"]
  | .arbiter _ => ["W", "C"]
  | .func fu => (List.range fu.params.length).map fun i => s!"W{i}"

/-- The ports of a template as they are printed. -/
def printedPorts : TemplateBody → List PrintedPort
  | .copy => [inPort "W" "in" true, ⟨⟨.output, "W", "out"⟩, true, some "N"⟩]
  | .sink => [inPort "W" "in" true]
  | .source => [outPort "W" "x" false]
  | .buffer => [inPort "W" "in" false, outPort "W" "out" true]
  | .split n => [inPort "W1" "ctrl" false, inPort "W2" "in" true] ++
      (List.range n).map fun i => outPort "W2" s!"out{i}" true
  | .merge n => [inPort "W1" "ctrl" false] ++
      ((List.range n).map (fun i => inPort "W2" s!"in{i}" true) ++ [outPort "W2" "out" true])
  | .mixer n => (List.range n).map (fun i => inPort "W" s!"in{i}" true) ++
      [outPort "W" "out" true]
  | .arbiter n => (List.range n).map (fun i => inPort "W" s!"in{i}" true) ++
      [outPort "W" "out" true, outPort "C" "ctrl" true]
  | .func fu => (List.range fu.argWidths.length).map
        (fun i => inPort s!"W{i}" s!"arg{i}" false) ++
      (List.range fu.outputs.length).map fun j =>
        outPort s!"W{fu.argWidths.length + j}" s!"out{j}" true

end TemplateBody

/-- The signature of a template. -/
def Template.signature (t : Template) : Signature :=
  ⟨t.name, t.body.params, t.body.printedPorts.map PrintedPort.port⟩

/-- Joined lists are joined. -/
theorem intercalate_append (sep : String) (xs ys : List String) (hxs : xs ≠ []) (hys : ys ≠ []) :
    String.intercalate sep (xs ++ ys)
      = String.intercalate sep xs ++ sep ++ String.intercalate sep ys := by
  induction xs with
  | nil => exact absurd rfl hxs
  | cons x xs ih =>
      cases xs with
      | nil =>
          cases ys with
          | nil => exact absurd rfl hys
          | cons y ys =>
              rw [List.singleton_append, String.intercalate_cons_cons,
                String.intercalate_singleton]
      | cons x' xs =>
          rw [List.cons_append, List.cons_append, String.intercalate_cons_cons,
            ← List.cons_append, ih (List.cons_ne_nil _ _), String.intercalate_cons_cons]
          simp only [String.append_assoc]

/-- Numbers keep a name plain. -/
theorem isPlain_numbered (stem : String) (n : Nat) (hstem : IsPlain stem) :
    IsPlain (stem ++ toString n) := by
  intro c hc
  rw [String.toList_append, Text.toString_toList] at hc
  rcases List.mem_append.mp hc with hc | hc
  · exact hstem c hc
  · exact isAlphanum_toDigits n c hc

/-- A port is plain if its width and its name are. -/
theorem plain_dataPort {direction : Direction} {width name : String} {spaced : Bool}
    (hwidth : IsPlain width) (hname : IsPlain name) :
    (dataPort direction width name spaced).Plain :=
  ⟨hwidth, hname, fun _ h => absurd h (Option.not_mem_none _)⟩

/-- The ports of a template have plain names. -/
theorem TemplateBody.plain_ports (body : TemplateBody) : ∀ q ∈ body.printedPorts, q.Plain := by
  have hW : IsPlain "W" := by decide
  have hW1 : IsPlain "W1" := by decide
  have hW2 : IsPlain "W2" := by decide
  have hin : IsPlain "in" := by decide
  have hout : IsPlain "out" := by decide
  have hctrl : IsPlain "ctrl" := by decide
  -- Only numbered names are not closed terms.
  have hinput : ∀ i : Nat, IsPlain s!"in{i}" := fun i => isPlain_numbered "in" i hin
  have houtput : ∀ i : Nat, IsPlain s!"out{i}" := fun i => isPlain_numbered "out" i hout
  have hnone : ∀ q ∈ ([] : List PrintedPort), q.Plain := fun _ h => absurd h List.not_mem_nil
  have hone : (outPort "W" "out" true).Plain := plain_dataPort hW hout
  cases body with
  | copy =>
      simp only [printedPorts, List.forall_mem_cons]
      exact ⟨plain_dataPort hW hin, ⟨hW, hout, by simpa using (by decide : IsPlain "N")⟩, hnone⟩
  | sink =>
      simp only [printedPorts, List.forall_mem_cons]
      exact ⟨plain_dataPort hW hin, hnone⟩
  | source =>
      simp only [printedPorts, List.forall_mem_cons]
      exact ⟨plain_dataPort hW (by decide), hnone⟩
  | buffer =>
      simp only [printedPorts, List.forall_mem_cons]
      exact ⟨plain_dataPort hW hin, hone, hnone⟩
  | split n =>
      simp only [printedPorts, List.forall_mem_append, List.forall_mem_cons, List.forall_mem_map]
      exact ⟨⟨plain_dataPort hW1 hctrl, plain_dataPort hW2 hin, hnone⟩,
        fun i _ => plain_dataPort hW2 (houtput i)⟩
  | merge n =>
      simp only [printedPorts, List.forall_mem_append, List.forall_mem_cons, List.forall_mem_map]
      exact ⟨⟨plain_dataPort hW1 hctrl, hnone⟩,
        fun i _ => plain_dataPort hW2 (hinput i), plain_dataPort hW2 hout, hnone⟩
  | mixer n =>
      simp only [printedPorts, List.forall_mem_append, List.forall_mem_cons, List.forall_mem_map]
      exact ⟨fun i _ => plain_dataPort hW (hinput i), hone, hnone⟩
  | arbiter n =>
      simp only [printedPorts, List.forall_mem_append, List.forall_mem_cons, List.forall_mem_map]
      exact ⟨fun i _ => plain_dataPort hW (hinput i), hone,
        plain_dataPort (by decide) hctrl, hnone⟩
  | func fu =>
      have hwidth : ∀ i : Nat, IsPlain s!"W{i}" := fun i => isPlain_numbered "W" i hW
      have harg : ∀ i : Nat, IsPlain s!"arg{i}" := fun i => isPlain_numbered "arg" i (by decide)
      simp only [printedPorts, List.forall_mem_append, List.forall_mem_map]
      exact ⟨fun i _ => plain_dataPort (hwidth i) (harg i),
        fun j _ => plain_dataPort (hwidth _) (houtput j)⟩

/-- The parameters of a template are plain names. -/
theorem TemplateBody.plain_params (body : TemplateBody) : ∀ t ∈ body.params, IsPlain t := by
  cases body with
  | copy => exact (by decide : ∀ t ∈ ["W", "N"], IsPlain t)
  | source => exact (by decide : ∀ t ∈ ["V", "W"], IsPlain t)
  | buffer => exact (by decide : ∀ t ∈ ["D", "W"], IsPlain t)
  | split n | merge n => exact (by decide : ∀ t ∈ ["W1", "W2"], IsPlain t)
  | sink | mixer n => exact (by decide : ∀ t ∈ ["W"], IsPlain t)
  | arbiter n => exact (by decide : ∀ t ∈ ["W", "C"], IsPlain t)
  | func fu =>
      simp only [params, List.forall_mem_map]
      exact fun i _ => isPlain_numbered "W" i (by decide)

/-- No name of a template holds a mark. -/
theorem Component.notMem_name (c : Component) (hc : c.Spelled) (mark : Char)
    (hmark : mark.isAlphanum = false) (hbar : mark ≠ '_') : mark ∉ c.template.name.toList := by
  have hplain : ∀ cs : List Char, cs.all Char.isAlphanum = true → mark ∉ cs := fun cs h =>
    notMem_of_isAlphanum mark hmark cs (List.all_eq_true.mp h)
  cases c with
  | routing kind pipeline ports widths =>
      have hdigits := notMem_of_isAlphanum mark hmark _ (isAlphanum_toDigits ports)
      have hkind : mark ∉ kind.text.toList := hplain _ (by cases kind <;> decide)
      have hstem : mark ∉ (if pipeline then ['p', 'i', 'p', 'e'] else
          ['u', 'n', 'p', 'i', 'p', 'e']) := hplain _ (by cases pipeline <;> decide)
      rw [template, structuralName_toList]
      simp only [List.mem_append, List.mem_cons, not_or]
      exact ⟨hstem, hbar, hkind, hdigits⟩
  | unit fu =>
      rcases FunctionalUnit.Spelled.tokens hc with ⟨ts, hname, hproper, _, _⟩
      intro hmem
      rw [template, hname] at hmem
      -- A unit is named by letters, digits and bars.
      rcases unitName_chars ts hproper mark hmem with h | h
      · rw [hmark] at h
        cases h
      · exact hbar h
  | copy => exact hplain "copy".toList (by decide)
  | source => exact hplain "source".toList (by decide)
  | sink => exact hplain "sink".toList (by decide)
  | buffer => exact hplain "buffer".toList (by decide)

/-- A header can be printed for the template of a component. -/
theorem Component.printable (c : Component) (hc : c.Spelled) :
    Signature.Printable c.template.name c.template.body.params c.template.body.printedPorts := by
  refine ⟨⟨c.notMem_name hc '(' (by decide) (by decide), c.notMem_name hc '\n' (by decide)
    (by decide)⟩, ?_, c.template.body.plain_params, ?_, c.template.body.plain_ports⟩
  · cases c with
    | routing kind pipeline ports widths => cases kind <;> exact List.cons_ne_nil _ _
    | unit fu =>
        have hparams := FunctionalUnit.Spelled.params_ne_nil hc
        simpa [template, TemplateBody.params] using hparams
    | _ => exact List.cons_ne_nil _ _
  · cases c with
    | routing kind pipeline ports widths =>
        cases kind <;> simp [template, Routing.body, TemplateBody.printedPorts]
    | unit fu =>
        -- A unit has an output, because its name counts at least one.
        rcases hc.name with ⟨ts, _, _, houts⟩
        have hsome : (List.range fu.outputs.length) ≠ [] := by
          rw [Ne, List.range_eq_nil]
          omega
        exact List.append_ne_nil_of_right_ne_nil _ fun h => hsome (List.map_eq_nil_iff.mp h)
    | _ => exact List.cons_ne_nil _ _

section Lines

variable (name : String)

/-- A header line, as text and by its ports. -/
theorem portLine_eq (ports : List PrintedPort) (line : String) (texts : List String)
    (htexts : ports.map PrintedPort.text = texts)
    (hline : line.toList = "export defproc ".toList ++ (name.toList ++ '(' ::
      ((String.intercalate "; " texts).toList ++ [')']))) :
    line = portLine name ports := by
  refine String.toList_injective ?_
  rw [hline, ← htexts, portLine_toList, String.toList_intercalate, List.map_map]
  rfl

/-- A numbered port as it is printed. -/
theorem dataPort_text (direction : Direction) (width stem : String) (i : Nat) :
    (dataPort direction width (stem ++ toString i) true).text
      = "chan" ++ direction.symbol ++ "(int<" ++ width ++ ">) " ++ stem ++ toString i := by
  simp [dataPort, PrintedPort.text, String.append_assoc]

/-- A text has the header of a body, behind lines that export nothing. -/
def HasHeader (body : TemplateBody) (text : String) : Prop :=
  ∃ before rest, (∀ l ∈ before, IsHeaderless l) ∧
    text = lines (before ++ paramLine body.params :: portLine name body.printedPorts :: rest)

/-- A text that starts with its header has it. -/
theorem hasHeader_of_lines {body : TemplateBody} {text : String} (rest : List String)
    (h : text = lines (paramLine body.params :: portLine name body.printedPorts :: rest)) :
    HasHeader name body text :=
  ⟨[], rest, fun _ hl => absurd hl List.not_mem_nil, h⟩

/-- A copy has one input and an array of outputs. -/
theorem renderCopy_header : HasHeader name .copy (Template.renderCopy name) := by
  refine hasHeader_of_lines name _ (congrArg (fun line => lines (_ :: line :: _))
    (portLine_eq name _ _ ["chan?(int<W>) in", "chan!(int<W>) out[N]"] rfl ?_))
  simp

/-- A sink has one input. -/
theorem renderSink_header : HasHeader name .sink (Template.renderSink name) := by
  refine hasHeader_of_lines name _ (congrArg (fun line => lines (_ :: line :: _))
    (portLine_eq name _ _ ["chan?(int<W>) in"] rfl ?_))
  simp

/-- A source has one output. -/
theorem renderSource_header : HasHeader name .source (Template.renderSource name) := by
  refine hasHeader_of_lines name _ (congrArg (fun line => lines (_ :: line :: _))
    (portLine_eq name _ _ ["chan!(int<W>)x"] rfl ?_))
  simp

/-- A split numbers its outputs. -/
theorem renderSplit_header (n : Nat) (hn : n ≠ 0) :
    HasHeader name (.split n) (Template.renderSplit name n) := by
  -- The separator in front of the outputs is written even without any, so there has to be one.
  have houts : (List.range n).map (fun i => s!"chan!(int<W2>) out{i}") ≠ [] := by simpa using hn
  refine hasHeader_of_lines name _ (congrArg (fun line => lines (_ :: line :: _))
    (portLine_eq name _ _ (["chan?(int<W1>)ctrl", "chan?(int<W2>) in"] ++
      (List.range n).map fun i => s!"chan!(int<W2>) out{i}") ?_ ?_))
  · rw [TemplateBody.printedPorts, List.map_append, List.map_map]
    exact congrArg (_ ++ ·) (List.map_congr_left fun i _ => dataPort_text .output "W2" "out" i)
  · rw [intercalate_append "; " _ _ (List.cons_ne_nil _ _) houts]
    simp [enumerate]

/-- A merge numbers its inputs between the guard and the output. -/
theorem renderMerge_header (n : Nat) (hn : n ≠ 0) :
    HasHeader name (.merge n) (Template.renderMerge name n) := by
  have hins : (List.range n).map (fun i => s!"chan?(int<W2>) in{i}") ≠ [] := by simpa using hn
  refine hasHeader_of_lines name _ (congrArg (fun line => lines (_ :: line :: _))
    (portLine_eq name _ _ (["chan?(int<W1>)ctrl"] ++
      ((List.range n).map (fun i => s!"chan?(int<W2>) in{i}") ++ ["chan!(int<W2>) out"])) ?_ ?_))
  · rw [TemplateBody.printedPorts, List.map_append, List.map_append, List.map_map]
    exact congrArg (fun ins => _ ++ (ins ++ _))
      (List.map_congr_left fun i _ => dataPort_text .input "W2" "in" i)
  · rw [intercalate_append "; " _ _ (List.cons_ne_nil _ _)
      (List.append_ne_nil_of_left_ne_nil hins _),
      intercalate_append "; " _ _ hins (List.cons_ne_nil _ _)]
    simp [enumerate]

/-- A header line with numbered inputs and other ports behind them. The text of
    these and of the closing parenthesis is `tail`. -/
theorem portLine_join (n : Nat) (hn : n ≠ 0) (others : List PrintedPort) (hothers : others ≠ [])
    (tail : String)
    (htail : tail = "; " ++ String.intercalate "; " (others.map PrintedPort.text) ++ ")") :
    "export defproc " ++ name ++ "(" ++ enumerate n "; " (fun i => s!"chan?(int<W>) in{i}") ++ tail
      = portLine name ((List.range n).map (fun i => inPort "W" s!"in{i}" true) ++ others) := by
  have hins : (List.range n).map (fun i => s!"chan?(int<W>) in{i}") ≠ [] := by simpa using hn
  have htexts : others.map PrintedPort.text ≠ [] := by simpa using hothers
  refine portLine_eq name _ _ ((List.range n).map (fun i => s!"chan?(int<W>) in{i}") ++
    others.map PrintedPort.text) ?_ ?_
  · rw [List.map_append, List.map_map]
    exact congrArg (· ++ _) (List.map_congr_left fun i _ => dataPort_text .input "W" "in" i)
  · rw [htail, intercalate_append "; " _ _ hins htexts]
    simp [enumerate]

/-- A mixer has inputs and one output. -/
theorem renderMixer_header (n : Nat) (hn : n ≠ 0) :
    HasHeader name (.mixer n) (Template.renderJoin name n false) :=
  hasHeader_of_lines name _ (congrArg (fun line => lines ("template<pint W>" :: line :: _))
    (portLine_join name n hn [outPort "W" "out" true] (List.cons_ne_nil _ _)
      "; chan!(int<W>) out)" (by decide)))

/-- An arbiter also sends which input it took. -/
theorem renderArbiter_header (n : Nat) (hn : n ≠ 0) :
    HasHeader name (.arbiter n) (Template.renderJoin name n true) :=
  hasHeader_of_lines name _ (congrArg (fun line => lines ("template<pint W, C>" :: line :: _))
    (portLine_join name n hn [outPort "W" "out" true, outPort "C" "ctrl" true]
      (List.cons_ne_nil _ _) "; chan!(int<W>) out; chan!(int<C>) ctrl)" (by decide)))

/-- The stage of a buffer stands before the buffer and is not exported. -/
theorem renderBuffer_header : HasHeader "buffer" .buffer (Template.renderBuffer "buffer") := by
  let stage : List String := ["template<pint W>",
    "defproc buffer_stage(chan?(int<W>)in; chan!(int<W>) out)", "\x7b", "  int<W> x;",
    "  chp \x7b", "    *[in?x; out!x; log(\"send \", x)]", "  \x7d", "\x7d", ""]
  refine ⟨stage, _, by decide +kernel, congrArg (fun line => lines (stage ++ _ :: line :: _))
    (portLine_eq "buffer" _ _ ["chan?(int<W>)in", "chan!(int<W>) out"] rfl ?_)⟩
  simp

/-- The ports of a unit are its arguments and outputs. -/
theorem portLine_func (fu : FunctionalUnit) :
    "export defproc " ++ fu.name ++ "(" ++ fu.portList ++ ")"
      = portLine fu.name (TemplateBody.func fu).printedPorts := by
  refine portLine_eq fu.name _ _
    ((List.range fu.argWidths.length).map (fun i => s!"chan?(int<W{i}>)arg{i}") ++
      (List.range fu.outputs.length).map
        fun j => s!"chan!(int<W{fu.argWidths.length + j}>) out{j}") ?_ ?_
  · simp only [TemplateBody.printedPorts, List.map_append, List.map_map]
    congr 1
    · refine List.map_congr_left fun i _ => String.toList_injective ?_
      rw [Function.comp_apply, PrintedPort.text_toList]
      simp [dataPort, Direction.symbol]
      rfl
    · refine List.map_congr_left fun j _ => String.toList_injective ?_
      rw [Function.comp_apply, PrintedPort.text_toList]
      simp [dataPort, Direction.symbol]
      rfl
  · simp [FunctionalUnit.portList]

/-- A unit numbers its parameters, its arguments and its outputs. -/
theorem renderFunc_header (fu : FunctionalUnit) : HasHeader fu.name (.func fu) fu.render :=
  hasHeader_of_lines _ _ (congrArg (fun line => lines (_ :: line :: _)) (portLine_func fu))

end Lines

/-- A component that routes tokens has a data port and a width for each
    parameter. -/
def Component.Formed : Component → Prop
  | .routing kind _ ports widths => ports ≠ 0 ∧ widths.length = (kind.body ports).params.length
  | _ => True

/-- The text of the template of a component has the signature that is expected
    of it. -/
theorem Component.read_render (c : Component) (hc : c.Spelled) (hformed : c.Formed) :
    Signature.read? c.template.render = some c.template.signature := by
  -- What stands around the header does not matter.
  have hread : HasHeader c.template.name c.template.body c.template.render →
      Signature.read? c.template.render = some c.template.signature := by
    rintro ⟨before, rest, hbefore, h⟩
    rw [h, read?_lines before rest hbefore (c.printable hc)]
    rfl
  cases c with
  | copy width reads => exact hread (renderCopy_header _)
  | source value width => exact hread (renderSource_header _)
  | sink width => exact hread (renderSink_header _)
  | buffer depth width => exact hread renderBuffer_header
  | unit fu => exact hread (renderFunc_header fu)
  | routing kind pipeline ports widths =>
      cases kind with
      | split => exact hread (renderSplit_header _ ports hformed.1)
      | merge => exact hread (renderMerge_header _ ports hformed.1)
      | mixer => exact hread (renderMixer_header _ ports hformed.1)
      | arbiter => exact hread (renderArbiter_header _ ports hformed.1)

end Templates

section Keys

/-- The numbers between the brackets of a key are the parameters of its
    component. -/
theorem Component.argumentsOf_key (c : Component) (hc : c.Spelled) (hparams : c.params ≠ []) :
    argumentsOf c.key = c.params := by
  -- Numbers hold no mark, so the key can be cut at its marks.
  have hdigit : ∀ mark : Char, mark.isAlphanum = false →
      ∀ cs ∈ c.params.map (Nat.toDigits 10), mark ∉ cs := by
    intro mark hmark cs hcs
    rcases List.mem_map.mp hcs with ⟨n, _, rfl⟩
    exact notMem_of_isAlphanum mark hmark _ (isAlphanum_toDigits n)
  have hkey : c.key.toList = c.template.name.toList ++ '<' ::
      ([','].intercalate (c.params.map (Nat.toDigits 10)) ++ '>' :: []) := by
    have htexts : (c.params.map toString).map String.toList = c.params.map (Nat.toDigits 10) := by
      rw [List.map_map]
      exact List.map_congr_left fun n _ => Text.toString_toList n
    unfold key
    rw [String.toList_append, String.toList_append, String.toList_append,
      String.toList_intercalate, htexts, List.append_assoc, List.append_assoc]
    rfl
  unfold argumentsOf
  rw [hkey, Text.cut_append '<' _ _ (c.bracket_notMem_name hc),
    Text.cut_append '>' _ _ (notMem_intercalate '>' _ _ (by decide) (hdigit '>' (by decide))),
    List.splitOn_intercalate ',' (hdigit ',' (by decide)) (by simpa using hparams), List.map_map]
  conv_rhs => rw [← List.map_id c.params]
  exact List.map_congr_left fun n _ => Text.ofDigits_toDigits 10 n (by decide) (by decide)

/-- A component has a parameter, and as many as its template. -/
theorem Component.params_length (c : Component) (hc : c.Spelled) (hformed : c.Formed) :
    c.params ≠ [] ∧ c.params.length = c.template.body.params.length := by
  cases c with
  | unit fu =>
      refine ⟨FunctionalUnit.Spelled.params_ne_nil hc, ?_⟩
      rw [template, TemplateBody.params, List.length_map, List.length_range]
      rfl
  | routing kind pipeline ports widths =>
      refine ⟨?_, hformed.2⟩
      rintro (rfl : widths = [])
      cases kind <;> cases hformed.2
  | _ => exact ⟨List.cons_ne_nil _ _, rfl⟩

/-- The value of a parameter, if the parameters have the values `args`. -/
def Signature.value? (sig : Signature) (args : List Nat) (param : String) : Option Nat :=
  (sig.params.zip args).lookup param

/-- The parameters of a unit are numbered, and have their values in order. -/
theorem value?_func (fu : FunctionalUnit) (name : String) (i w : Nat) (h : fu.params[i]? = some w) :
    (Template.signature ⟨name, .func fu⟩).value? fu.params s!"W{i}" = some w := by
  -- Parameters of different numbers have different names.
  have hinj : Function.Injective fun i : Nat => s!"W{i}" := by
    intro i j h
    have hlist := congrArg String.toList h
    simp only [String.toList_append, Text.toString_toList, List.append_cancel_left_eq] at hlist
    exact toDigits_inj i j (by simpa using hlist)
  have hnames : (Template.signature ⟨name, .func fu⟩).params
      = (List.range fu.params.length).map fun i => s!"W{i}" := rfl
  have hlength : (Template.signature ⟨name, .func fu⟩).params.length = fu.params.length := by
    rw [hnames, List.length_map, List.length_range]
  have hlt : i < fu.params.length := (List.getElem?_eq_some_iff.mp h).1
  -- No two parameters have one name, so a lookup finds the value at its position.
  refine Lowering.lookup_of_mem _ (s!"W{i}", w) ?_ (List.mem_of_getElem? (i := i) ?_)
  · rw [List.map_fst_zip hlength.le, hnames]
    exact List.pairwise_map.mpr (List.nodup_range.imp fun hne heq => hne (hinj heq))
  · rw [List.getElem?_zip_eq_some, hnames, List.getElem?_map, List.getElem?_range hlt]
    exact ⟨rfl, h⟩

end Keys

section Locals

open Emit

namespace LocalDef

/-- The line that declares a variable. -/
def text (v : LocalDef) : String :=
  v.width.elim ("  bool " ++ v.name ++ ";") fun w => "  int<" ++ w ++ "> " ++ v.name ++ ";"

/-- The names of a variable are plain. -/
structure Plain (v : LocalDef) : Prop where
  name : IsPlain v.name
  width : ∀ w ∈ v.width, IsPlain w

variable (v : LocalDef)

/-- A declared variable, character by character. -/
theorem text_toList : v.text.toList = ' ' :: ' ' ::
    v.width.elim ('b' :: 'o' :: 'o' :: 'l' :: ' ' :: (v.name.toList ++ [';']))
      fun w => 'i' :: 'n' :: 't' :: '<' ::
        (w.toList ++ '>' :: ' ' :: (v.name.toList ++ [';'])) := by
  rcases v with ⟨name, width⟩
  cases width <;> simp [text]

/-- A declared variable is read back. -/
theorem readLocal?_text (hv : v.Plain) : readLocal? v.text.toList = some v := by
  rcases v with ⟨name, width⟩
  have hname : ∀ c ∈ name.toList, decide (c ≠ ';') = true := by
    intro c hc
    exact decide_eq_true (ne_of_isAlphanum c ';' (hv.name c hc) (by decide))
  -- The name ends at the semicolon.
  have hread : (name.toList ++ [';']).takeWhile (· ≠ ';') = name.toList := by
    rw [List.takeWhile_append_of_pos hname]
    simp
  rw [text_toList]
  cases width with
  | none =>
      have hint : ∀ rest, "  int<".toList.isPrefixOf? (' ' :: ' ' :: 'b' :: rest) = none :=
        fun _ => rfl
      have hbool : ∀ rest, "  bool ".toList.isPrefixOf?
          (' ' :: ' ' :: 'b' :: 'o' :: 'o' :: 'l' :: ' ' :: rest) = some rest := fun _ => rfl
      unfold readLocal?
      simp only [Option.elim_none, hint, hbool, Option.map_some, hread, String.ofList_toList]
  | some w =>
      have hint : ∀ rest, "  int<".toList.isPrefixOf?
          (' ' :: ' ' :: 'i' :: 'n' :: 't' :: '<' :: rest) = some rest := fun _ => rfl
      have hw : '>' ∉ w.toList := notMem_of_isAlphanum '>' (by decide) _ (hv.width w rfl)
      have htrim : Text.trimStart (name.toList ++ [';']) = name.toList ++ [';'] := by
        cases hcs : name.toList with
        | nil => exact List.dropWhile_cons_of_neg (by decide)
        | cons c cs =>
            refine List.dropWhile_cons_of_neg ?_
            rw [isBlank_of_isAlphanum c (hv.name c (by rw [hcs]; exact List.mem_cons_self))]
            exact Bool.false_ne_true
      unfold readLocal?
      simp only [Option.elim_some, hint, Text.cut_append '>' _ _ hw, Text.trimStart_space, htrim,
        hread, String.ofList_toList]

/-- A declaration is one line, and the program does not start with it. -/
theorem text_line (hv : v.Plain) :
    '\n' ∉ v.text.toList ∧ v.text.toList ≠ "  chp \x7b".toList := by
  rcases v with ⟨name, width⟩
  have hname := notMem_of_isAlphanum '\n' (by decide) _ hv.name
  rw [text_toList]
  cases width with
  | none => simp [hname]
  | some w =>
      have hw := notMem_of_isAlphanum '\n' (by decide) _ (hv.width w rfl)
      simp [hname, hw]

end LocalDef

namespace FunctionalUnit

/-- The variables of a unit: one for each argument, and one for each result. -/
def locals (fu : FunctionalUnit) : List LocalDef :=
  (List.range fu.argWidths.length).map (fun i => ⟨s!"x{i}", some s!"W{i}"⟩) ++
    fu.statements.map fun st =>
      ⟨s!"res{st.index}", if st.isBool then none else some s!"W{fu.resultParameter st}"⟩

/-- The variables of a unit have plain names. -/
theorem plain_locals (fu : FunctionalUnit) : ∀ v ∈ fu.locals, v.Plain := by
  have hwidth : ∀ i : Nat, IsPlain s!"W{i}" := fun i => isPlain_numbered "W" i (by decide)
  simp only [locals, List.forall_mem_append, List.forall_mem_map]
  refine ⟨fun i _ => ⟨isPlain_numbered "x" i (by decide), fun w hw => ?_⟩,
    fun st _ => ⟨isPlain_numbered "res" _ (by decide), fun w hw => ?_⟩⟩
  · cases hw
    exact hwidth i
  · cases hbool : st.isBool with
    | true => simp [hbool] at hw
    | false =>
        simp only [hbool, Bool.false_eq_true, if_false, Option.mem_some_iff] at hw
        rw [← hw]
        exact hwidth _

/-- The text of a unit declares its variables behind the header and before the
    program. -/
theorem render_locals (fu : FunctionalUnit) : ∃ rest, fu.render
    = lines (([paramLine (TemplateBody.func fu).params,
        portLine fu.name (TemplateBody.func fu).printedPorts, "\x7b"] ++
          fu.locals.map LocalDef.text) ++ "  chp \x7b" :: rest) := by
  -- What is printed for a variable does not mention the definition of variables.
  have hlocals : fu.locals.map LocalDef.text
      = (List.range fu.argWidths.length).map (fun i => s!"  int<W{i}> x{i};") ++
        fu.statements.map fu.resultDecl := by
    rw [locals, List.map_append, List.map_map, List.map_map]
    congr 1
    · refine List.map_congr_left fun i _ => String.toList_injective ?_
      rw [Function.comp_apply, LocalDef.text_toList]
      simp
      rfl
    · refine List.map_congr_left fun st _ => String.toList_injective ?_
      rw [Function.comp_apply, LocalDef.text_toList, resultDecl]
      cases st.isBool with
      | false =>
          simp
          rfl
      | true =>
          simp
          rfl
  rw [hlocals, ← portLine_func]
  exact ⟨_, by
    unfold render
    simp only [List.append_assoc, List.cons_append, List.nil_append]
    rfl⟩

/-- The lines in front of the variables declare none, and the program does not
    start with them. -/
theorem head_lines {name : String} {params : List String} {ports : List PrintedPort}
    (h : Signature.Printable name params ports) :
    ∀ l ∈ [paramLine params, portLine name ports, "\x7b"],
      ('\n' ∉ l.toList ∧ l.toList ≠ "  chp \x7b".toList) ∧ readLocal? l.toList = none := by
  rcases feed_notMem_header h with ⟨hfirst, hsecond⟩
  have hparam := paramLine_toList params
  have hport := portLine_toList name ports
  -- Both start with a letter, and a declaration and the program with a blank.
  have hletter : ∀ (l : String) (c : Char) (cs : List Char), c ≠ ' ' → l.toList = c :: cs →
      l.toList ≠ "  chp \x7b".toList := by
    intro l c cs hc hl heq
    rw [hl] at heq
    exact hc (List.cons.inj heq).1
  simp only [List.forall_mem_cons]
  refine ⟨⟨⟨hfirst, hletter _ 't' _ (by decide) hparam⟩, ?_⟩,
    ⟨⟨hsecond, hletter _ 'e' _ (by decide) hport⟩, ?_⟩, by decide,
    fun l hl => absurd hl List.not_mem_nil⟩
  · rw [hparam]
    rfl
  · rw [hport]
    rfl

/-- Declared variables are read back line by line. -/
theorem readLocals_text (vs : List LocalDef) (h : ∀ v ∈ vs, v.Plain) :
    ((vs.map LocalDef.text).map String.toList).filterMap readLocal? = vs := by
  rw [List.map_map, List.filterMap_map]
  conv_rhs => rw [← List.filterMap_some (l := vs)]
  exact List.filterMap_congr fun v hv => v.readLocal?_text (h v hv)

/-- The text of a unit declares the expected variables. -/
theorem locals_render (fu : FunctionalUnit) (hfu : fu.Spelled) :
    declaredLocals fu.render = fu.locals := by
  have hhead := head_lines (Component.printable (.unit fu) hfu)
  rcases fu.render_locals with ⟨rest, hrender⟩
  let head : List String := [paramLine (TemplateBody.func fu).params,
    portLine fu.name (TemplateBody.func fu).printedPorts, "\x7b"]
  have hbefore : ∀ l ∈ head ++ fu.locals.map LocalDef.text, '\n' ∉ l.toList ∧
      l.toList ≠ "  chp \x7b".toList := by
    intro l hl
    rcases List.mem_append.mp hl with hl | hl
    · exact (hhead l hl).1
    · rcases List.mem_map.mp hl with ⟨v, hv, rfl⟩
      exact v.text_line (fu.plain_locals v hv)
  have hall : ∀ cs ∈ (head ++ fu.locals.map LocalDef.text).map String.toList,
      decide (cs ≠ "  chp \x7b".toList) = true := by
    intro cs hcs
    rcases List.mem_map.mp hcs with ⟨l, hl, rfl⟩
    exact decide_eq_true (hbefore l hl).2
  -- Reading stops at the line with which the program starts.
  have hprogram : ∀ lines : List (List Char),
      ("  chp \x7b".toList :: lines).takeWhile (· ≠ "  chp \x7b".toList) = [] := fun lines =>
    List.takeWhile_cons_of_neg (by decide)
  unfold declaredLocals
  rw [hrender, lines_written _ _ fun l hl => (hbefore l hl).1, lines_toList,
    Text.lines_cons _ _ (by decide), List.takeWhile_append_of_pos hall, hprogram, List.append_nil,
    List.map_append, List.filterMap_append, List.filterMap_map]
  -- Of the lines in front, none declares a variable.
  have hskipped : head.filterMap (readLocal? ∘ String.toList) = [] :=
    List.filterMap_eq_nil_iff.mpr fun l hl => (hhead l hl).2
  rw [hskipped, readLocals_text _ fu.plain_locals, List.nil_append]

end FunctionalUnit

end Locals

end DataflowCircuit
