import DataflowCircuit.Compile.Backend
import DataflowCircuit.Proofs.Compile.Files
import Mathlib.Logic.Function.Defs

/-!
# What a Run Leaves in Its Files

A run opens its files over and over. Each process adds to the netlist and to the
configuration, the library is opened when a process brings the first templates,
and closing the run opens it once more. The first opening of a file empties it
and every later one adds to it, so what a file holds at the end depends on the
memory of an output that it was opened before. This file shows that none of that
is visible afterwards: each file holds the texts of the run one after another.

The argument is a simulation. What a run does to its files is also done to three
texts, where a file that was not opened has no text yet. The outputs and the mark
that the name space is open can be read off these texts, so a backend is nothing
but the texts so far. Each write keeps the files in agreement with the texts, and
what becomes of the texts is an induction over the processes in which no file
occurs.

The three paths have to lead to different files, and nothing more: the files may
exist or not, and what they held before does not matter.

## Main definitions

* `Role`: The three files.
* `Targets`: Paths to three different files that can be created.
* `Texts`: What was written so far.
* `Held`: The files of a run hold these texts.
* `Backend.of`: The backend that has written these texts.

## Theorems

* `held_write`: A write adds to one text.
* `held_emitAll`, `held_writeLibrary`: A run adds to the texts what its processes
  say.
* `emitAll_of_emit`, `emitAll_library`: What the texts are then.
* `run_concatenates`: What a whole run leaves in its files.
-/

namespace DataflowCircuit

/-- The three files of a run. -/
inductive Role where
  | netlist
  | lib
  | conf
  deriving DecidableEq

/-- Paths to three different files, each of which can be created or replaced. -/
structure Targets (fs : Files) where
  path : Role → String
  place : Role → Place
  leads : ∀ r, fs.place? (path r) = some (place r)
  distinct : Function.Injective place

/-- What was written to each file so far. A file that was not opened has no
    text. -/
abbrev Texts := Role → Option String

namespace Texts

/-- Nothing was opened. -/
def start : Texts :=
  fun _ => none

/-- A text is added to one file, which is open afterwards. -/
def add (t : Texts) (r : Role) (s : String) : Texts :=
  fun q => if q = r then some ((t r).getD "" ++ s) else t q

/-- The text is added to its own file. -/
theorem add_self (t : Texts) (r : Role) (s : String) :
    t.add r s r = some ((t r).getD "" ++ s) :=
  if_pos rfl

/-- The other files keep theirs. -/
theorem add_of_ne (t : Texts) {r q : Role} (s : String) (h : q ≠ r) : t.add r s q = t q :=
  if_neg h

/-- What opens the library. -/
def header : String :=
  "namespace " ++ librarySpace ++ " \x7b\n\n"

/-- The library so far. It is opened with its name space. -/
def library (t : Texts) : String :=
  (t .lib).getD header

/-- A text is added to the library, inside of the name space. -/
def addLibrary (t : Texts) (s : String) : Texts :=
  t.add .lib ((if (t .lib).isSome then "" else header) ++ s)

/-- The text stands behind what the library holds. -/
theorem addLibrary_lib (t : Texts) (s : String) : t.addLibrary s .lib = some (t.library ++ s) := by
  unfold addLibrary library
  rw [add_self]
  -- Either the name space is opened by this text, or it was opened before.
  cases t .lib with
  | none => simp
  | some u => simp

/-- Only the library changes. -/
theorem addLibrary_of_ne (t : Texts) {q : Role} (s : String) (h : q ≠ .lib) :
    t.addLibrary s q = t q :=
  add_of_ne t _ h

/-- Templates are added to the library, which is opened if there are any. -/
def addTemplates (t : Texts) (tms : List Template) : Texts :=
  if tms.isEmpty then t else t.addLibrary (String.join (tms.map fun tm => tm.render ++ "\n"))

/-- The texts after a process. -/
def emit (t : Texts) (p : LoweredProcess) : Texts :=
  ((t.add .netlist (p.render ++ "\n")).addTemplates p.templates).add .conf
    (String.join (p.costBlocks.map CostBlock.render))

/-- The texts after some processes. -/
def emitAll (t : Texts) (ps : List LoweredProcess) : Texts :=
  ps.foldl emit t

end Texts

section Files

variable {job₀ : Job} (targets : Targets job₀.machine.files)

/-- The files of a run hold what was written so far, and otherwise the run has
    left the job as it was. -/
structure Held (t : Texts) (job : Job) : Prop where
  tree : Files.SameTree job₀.machine.files job.machine.files
  written : ∀ r s, t r = some s →
    job.machine.files.entries.lookup (targets.place r) = some (.text s)
  others : ∀ p, (∀ r, p ≠ targets.place r) →
    job.machine.files.entries.lookup p = job₀.machine.files.entries.lookup p
  rest : job = { job₀ with machine := { job₀.machine with files := job.machine.files } }

/-- A run starts with nothing written. -/
theorem held_start : Held targets .start job₀ :=
  ⟨Files.SameTree.refl _, fun _ _ (h : none = some _) => absurd h (by simp), fun _ _ => rfl, rfl⟩

variable {targets} {t : Texts} {job : Job}

/-- Opening a file a further time or for the first time, a text is added to what
    the run has written there. -/
theorem write_of_held (h : Held targets t job) (r : Role) (s : String) :
    (Output.file (targets.path r) (t r).isSome).write s job.machine
      = (.file (targets.path r) true,
          .ok { job.machine with
            files := job.machine.files.set (targets.place r) (.text ((t r).getD "" ++ s)) }) := by
  -- No write moves a directory, so the path leads where it led at the start.
  have hplace : job.machine.files.place? (targets.path r) = some (targets.place r) :=
    (h.tree.place?_eq _).trans (targets.leads r)
  have hwrite := (Files.write_ok_iff _ _ _ s).mpr ⟨_, hplace, rfl⟩
  unfold Output.write
  -- A file that was opened is extended, and any other is emptied.
  cases htext : t r with
  | none =>
      simp only [Option.isSome_none, Bool.false_eq_true, if_false, Option.getD_none, hwrite,
        String.empty_append]
      rfl
  | some u =>
      have hextend := (Files.extend_ok_iff _ _ _ s).mpr
        ⟨_, _, hplace, h.written r u htext, rfl⟩
      simp only [Option.isSome_some, if_true, Option.getD_some, hextend]
      rfl

/-- A write succeeds and adds to one text. -/
theorem held_write (h : Held targets t job) (r : Role) (s : String) :
    ∃ job', Job.write (.file (targets.path r) (t r).isSome) s job
        = .ok (.file (targets.path r) true) job' ∧ Held targets (t.add r s) job' := by
  refine ⟨{ job with machine := { job.machine with
    files := job.machine.files.set (targets.place r) (.text ((t r).getD "" ++ s)) } }, ?_, ?_⟩
  · rw [Job.write, get_bind_apply, write_of_held h r s]
    rfl
  · have hplace : job.machine.files.place? (targets.path r) = some (targets.place r) :=
      (h.tree.place?_eq _).trans (targets.leads r)
    refine ⟨h.tree.trans (Files.sameTree_set (Files.reached_of_place? hplace) _), ?_, ?_, ?_⟩
    · intro q u hu
      rw [Files.lookup_set]
      -- The other two files are elsewhere, and keep their texts.
      by_cases hq : q = r
      · rw [hq, Texts.add_self, Option.some.injEq] at hu
        rw [hq, if_pos rfl, hu]
      · rw [Texts.add_of_ne t s hq] at hu
        rw [if_neg fun heq => hq (targets.distinct heq)]
        exact h.written q u hu
    · intro p hp
      rw [Files.lookup_set, if_neg (hp r)]
      exact h.others p hp
    · rw [h.rest]

/-- The backend that has written some texts: it remembers which of them there
    are. -/
def Backend.of (targets : Targets job₀.machine.files) (t : Texts) : Backend where
  netlist := .file (targets.path .netlist) (t .netlist).isSome
  lib := .file (targets.path .lib) (t .lib).isSome
  conf := .file (targets.path .conf) (t .conf).isSome
  libraryOpen := (t .lib).isSome

/-- So does writing to the library, which may have to be opened. -/
theorem held_writeLibrary (h : Held targets t job) (s : String) :
    ∃ job', (Backend.of targets t).writeLibrary s job
        = .ok (Backend.of targets (t.addLibrary s)) job' ∧
      Held targets (t.addLibrary s) job' := by
  rcases held_write h .lib ((Backend.of targets t).opening ++ s) with ⟨job', hrun, hheld⟩
  exact ⟨job', bind_ok_iff.mpr ⟨_, job', hrun, rfl⟩, hheld⟩

/-- The templates of a process are written only if there are any. What follows
    goes on from there either way. -/
theorem held_templates (h : Held targets t job) (tms : List Template) :
    ∃ job', Held targets (t.addTemplates tms) job' ∧ ∀ k : Backend → Job.Step Backend,
      (if tms.isEmpty then pure (Backend.of targets t) >>= k
        else (Backend.of targets t).writeLibrary
          (String.join (tms.map fun tm => tm.render ++ "\n")) >>= k) job
        = k (Backend.of targets (t.addTemplates tms)) job' := by
  unfold Texts.addTemplates
  -- A process without templates does not open the library.
  by_cases hempty : tms.isEmpty = true
  · simp only [if_pos hempty]
    exact ⟨job, h, fun k => rfl⟩
  · simp only [if_neg hempty]
    rcases held_writeLibrary h _ with ⟨job', hrun, h'⟩
    exact ⟨job', h', fun k => bind_of_ok hrun⟩

/-- Writing a process adds to the texts what the process says. -/
theorem held_emit (h : Held targets t job) (p : LoweredProcess) :
    ∃ job', (Backend.of targets t).emit p job = .ok (Backend.of targets (t.emit p)) job' ∧
      Held targets (t.emit p) job' := by
  -- The three writes of a process, in the order in which they are made.
  rcases held_write h .netlist (p.render ++ "\n") with ⟨job₁, hnetlist, h₁⟩
  rcases held_templates h₁ p.templates with ⟨job₂, h₂, hlib⟩
  rcases held_write h₂ .conf (String.join (p.costBlocks.map CostBlock.render)) with
    ⟨job₃, hconf, h₃⟩
  refine ⟨job₃, bind_ok_iff.mpr ⟨_, job₁, hnetlist, (hlib _).trans ?_⟩, h₃⟩
  exact bind_ok_iff.mpr ⟨_, job₃, hconf, rfl⟩

/-- Writing processes adds to the texts what they say one after another. -/
theorem held_emitAll (h : Held targets t job) (ps : List LoweredProcess) :
    ∃ job', (Backend.of targets t).emitAll ps job = .ok (Backend.of targets (t.emitAll ps)) job' ∧
      Held targets (t.emitAll ps) job' := by
  induction ps generalizing t job with
  | nil => exact ⟨job, rfl, h⟩
  | cons p ps ih =>
      rcases held_emit h p with ⟨job₁, hemit, h₁⟩
      rcases ih h₁ with ⟨job₂, hall, h₂⟩
      exact ⟨job₂, bind_ok_iff.mpr ⟨_, job₁, hemit, hall⟩, h₂⟩

/-- The file of a text holds the text. -/
theorem read_of_held (h : Held targets t job) (r : Role) (s : String) (hs : t r = some s) :
    job.machine.files.read (targets.path r) = .ok (.text s) :=
  (Files.read_ok_iff _ _ _).mpr
    ⟨_, (h.tree.place?_eq _).trans (targets.leads r), h.written r s hs⟩

end Files

section Contents

open Texts

/-- Templates go to the library only. -/
theorem addTemplates_of_ne (t : Texts) {q : Role} (tms : List Template) (h : q ≠ .lib) :
    t.addTemplates tms q = t q := by
  unfold addTemplates
  split
  · rfl
  · exact addLibrary_of_ne t _ h

/-- Whether or not it has templates, a process adds them to the library. -/
theorem addTemplates_library (t : Texts) (tms : List Template) :
    (t.addTemplates tms).library
      = t.library ++ String.join (tms.map fun tm => tm.render ++ "\n") := by
  unfold addTemplates
  split
  · rename_i hempty
    rw [List.isEmpty_iff.mp hempty, List.map_nil, String.join_nil, String.append_empty]
  · rw [library, addLibrary_lib, Option.getD_some]

/-- A process adds one text to the netlist. -/
theorem emit_netlist (t : Texts) (p : LoweredProcess) :
    t.emit p .netlist = some ((t .netlist).getD "" ++ (p.render ++ "\n")) := by
  rw [emit, add_of_ne _ _ (by decide), addTemplates_of_ne _ _ (by decide), add_self]

/-- And one to the configuration. -/
theorem emit_conf (t : Texts) (p : LoweredProcess) :
    t.emit p .conf
      = some ((t .conf).getD "" ++ String.join (p.costBlocks.map CostBlock.render)) := by
  rw [emit, add_self, addTemplates_of_ne _ _ (by decide), add_of_ne _ _ (by decide)]

/-- And its templates to the library. -/
theorem emit_library (t : Texts) (p : LoweredProcess) :
    (t.emit p).library
      = t.library ++ String.join (p.templates.map fun tm => tm.render ++ "\n") := by
  -- Neither of the other files is the library.
  have hconf : ∀ (u : Texts) s, (u.add .conf s).library = u.library := by
    intro u s
    rw [library, library, add_of_ne u s (by decide)]
  have hnetlist : ∀ (u : Texts) s, (u.add .netlist s).library = u.library := by
    intro u s
    rw [library, library, add_of_ne u s (by decide)]
  rw [emit, hconf, addTemplates_library, hnetlist]

/-- A file to which every process adds one text gets them all. -/
theorem emitAll_of_emit {r : Role} {f : LoweredProcess → String}
    (hemit : ∀ (t : Texts) p, t.emit p r = some ((t r).getD "" ++ f p)) (t : Texts)
    (ps : List LoweredProcess) (hne : ps ≠ []) :
    t.emitAll ps r = some ((t r).getD "" ++ String.join (ps.map f)) := by
  induction ps generalizing t with
  | nil => exact absurd rfl hne
  | cons p ps ih =>
      rw [List.map_cons, String.join_cons, ← String.append_assoc]
      -- From the second process on there is a text to add to.
      cases ps with
      | nil =>
          rw [List.map_nil, String.join_nil, String.append_empty]
          exact hemit t p
      | cons q qs =>
          have hrest := ih (t.emit p) (by simp)
          rw [hemit, Option.getD_some] at hrest
          exact hrest

/-- What is joined process by process is joined at once. -/
theorem join_flatMap {α : Type} (items : LoweredProcess → List α) (f : α → String)
    (ps : List LoweredProcess) :
    String.join (ps.map fun p => String.join ((items p).map f))
      = String.join ((ps.flatMap items).map f) := by
  induction ps with
  | nil => rfl
  | cons p ps ih =>
      rw [List.map_cons, String.join_cons, ih, List.flatMap_cons, List.map_append,
        String.join_append]

/-- The library of some processes, before its name space is closed. -/
theorem emitAll_library (t : Texts) (ps : List LoweredProcess) :
    (t.emitAll ps).library = t.library ++
      String.join ((ps.flatMap LoweredProcess.templates).map fun tm => tm.render ++ "\n") := by
  induction ps generalizing t with
  | nil =>
      rw [List.flatMap_nil, List.map_nil, String.join_nil, String.append_empty]
      rfl
  | cons p ps ih =>
      -- The templates of the first process come before those of the rest.
      rw [List.flatMap_cons, List.map_append, String.join_append, ← String.append_assoc,
        ← emit_library]
      exact ih (t.emit p)

end Contents

section LineEnds

/-- A text of lines ends with a line feed. -/
theorem lines_ends (ls : List String) (hne : ls ≠ []) : ∃ text, Emit.lines ls = text ++ "\n" := by
  rcases List.eq_nil_or_concat ls with hnil | ⟨before, last, rfl⟩
  · exact absurd hnil hne
  -- The last line has its line feed at the end.
  · refine ⟨Emit.lines before ++ last, ?_⟩
    unfold Emit.lines
    rw [List.concat_eq_append, List.map_append, String.join_append, String.append_assoc]
    simp [String.join_cons]

/-- So does a template. -/
theorem Template.render_ends (tm : Template) : ∃ text, tm.render = text ++ "\n" := by
  unfold Template.render
  cases tm.body with
  | _ => exact lines_ends _ (by simp)

end LineEnds

/-- A run over some processes succeeds and leaves in each of its files the texts
    of the run one after another, whatever the files held before: the netlist has
    every process with a line feed after it, the configuration has the cost blocks
    of all processes, and the library has the templates of all processes inside
    one name space, each with a blank line after it. Nothing else changes. -/
theorem run_concatenates (job : Job) (targets : Targets job.machine.files)
    (ps : List LoweredProcess) (hne : ps ≠ []) :
    ∃ b job', (do
        let b ← (Backend.start (.file (targets.path .netlist) false)
          (.file (targets.path .lib) false) (.file (targets.path .conf) false)).emitAll ps
        b.finish) job = .ok b job' ∧
      job'.machine.files.read (targets.path .netlist)
        = .ok (.text (String.join (ps.map fun p => p.render ++ "\n"))) ∧
      job'.machine.files.read (targets.path .conf)
        = .ok (.text (String.join ((ps.flatMap LoweredProcess.costBlocks).map CostBlock.render))) ∧
      job'.machine.files.read (targets.path .lib)
        = .ok (.text ("namespace dflowstd \x7b\n\n" ++
            String.join ((ps.flatMap LoweredProcess.templates).map fun tm => tm.render ++ "\n") ++
            "\x7d\n")) ∧
      (∀ tm ∈ ps.flatMap LoweredProcess.templates, ∃ text, tm.render = text ++ "\n") ∧
      (∀ p, (∀ r, p ≠ targets.place r) →
        job'.machine.files.entries.lookup p = job.machine.files.entries.lookup p) ∧
      job' = { job with machine := { job.machine with files := job'.machine.files } } := by
  rcases held_emitAll (held_start targets) ps with ⟨job₁, hall, h₁⟩
  -- The name space is closed behind the last process.
  rcases held_writeLibrary h₁ "\x7d\n" with ⟨job₂, hfinish, h₂⟩
  refine ⟨_, job₂, bind_ok_iff.mpr ⟨_, job₁, hall, hfinish⟩, ?_, ?_, ?_,
    fun tm _ => tm.render_ends, h₂.others, h₂.rest⟩
  · refine read_of_held h₂ .netlist _ ?_
    rw [Texts.addLibrary_of_ne _ _ (by decide), emitAll_of_emit emit_netlist _ ps hne]
    exact congrArg some (String.empty_append)
  · refine read_of_held h₂ .conf _ ?_
    rw [Texts.addLibrary_of_ne _ _ (by decide), emitAll_of_emit emit_conf _ ps hne, join_flatMap]
    exact congrArg some (String.empty_append)
  · refine read_of_held h₂ .lib _ ?_
    rw [Texts.addLibrary_lib, emitAll_library]
    rfl

/-- A process without templates comes first, so the library is opened by the
    second one. The netlist had other contents before. -/
theorem run_concatenates_two_processes :
    let files := Files.ofList [("net.act", .text "old\n"), ("x", .text "")]
    let p : LoweredProcess := ⟨"p", [], [], [], [], [], [], [⟨"sink<4>", [], none⟩]⟩
    let q : LoweredProcess := ⟨"q", [], [], [], [], [], [⟨"sink", .sink⟩], []⟩
    ∃ b job', (do
        let b ← (Backend.start (.file "net.act" false) (.file "lib.act" false)
          (.file "./conf" false)).emitAll [p, q]
        b.finish) ⟨⟨files, .text "", "", ""⟩, [], []⟩ = .ok b job' ∧
      job'.machine.files.read "net.act" = .ok (.text
        ("defproc p()\n\x7b\n  /* copy processes */\n\x7d\n\n" ++
          "defproc q()\n\x7b\n  /* copy processes */\n\x7d\n\n")) ∧
      job'.machine.files.read "./conf" = .ok (.text "begin sink_4_\nend\n") ∧
      job'.machine.files.read "lib.act" = .ok (.text
        ("namespace dflowstd \x7b\n\n" ++ Template.renderSink "sink" ++ "\n\x7d\n")) := by
  intro files p q
  -- The paths lead to three different files.
  have htargets : ∃ targets : Targets files, targets.path = fun
      | .netlist => "net.act"
      | .lib => "lib.act"
      | .conf => "./conf" := by
    refine ⟨⟨_, fun | .netlist => ["net.act"] | .lib => ["lib.act"] | .conf => ["conf"],
      ?_, ?_⟩, rfl⟩
    · intro r
      cases r <;> decide
    · intro r r'
      cases r <;> cases r' <;> simp
  rcases htargets with ⟨targets, hpath⟩
  rcases run_concatenates ⟨⟨files, .text "", "", ""⟩, [], []⟩ targets [p, q] (by simp) with
    ⟨b, job', hrun, hnetlist, hconf, hlib, _⟩
  rw [hpath] at hrun hnetlist hconf hlib
  refine ⟨b, job', hrun, hnetlist.trans ?_, hconf.trans ?_, hlib.trans ?_⟩
  · decide
  · decide
  · decide

end DataflowCircuit
