import DataflowCircuit.Emit.Template
import DataflowCircuit.Lowering.Process
import DataflowCircuit.Proofs.Naming.Names

/-!
# Components

What a copy or an instance is an instance of, without the session that it was
written in.

A component fixes everything about a call site but its wiring. Its template and
its parameters make up the instance key, the template alone says which ports
are charged for a cost, and `ask` is the question that lowering puts to the
session for that cost. What a component leaves open is the session that is
asked, and of a functional unit the name that its template has in the end:
`Component.under` reads that off a table of bodies.

## Main definitions

* `Routing`: The kinds of elements that route tokens.
* `Component`: What a call site is an instance of.
* `Component.template`, `Component.key`, `Component.portCosts`: What is written
  for it.
* `Component.ask`: The step that finds its cost.
* `Component.count`: What its cost adds to the statistics.
* `Component.Spelled`: A component whose unit says what it computes.
* `Component.under`: A component under the name of its template.

## Theorems

* `Component.key_copy` and the lemmas behind it: The keys that lowering writes
  are those of the components.
* `Component.templateOf_key`: The template can be read off the instance key.
* `Component.template_eq_of_name`: Outside the functional units, the name of a
  template decides what it implements.
-/

namespace DataflowCircuit

/-- The kinds of elements that route tokens. -/
inductive Routing where
  | split
  | merge
  | mixer
  | arbiter
  deriving DecidableEq, Repr

namespace Routing

/-- The kind in a template name. -/
def text : Routing → String
  | .split => "split"
  | .merge => "merge"
  | .mixer => "mixer"
  | .arbiter => "arbiter"

/-- What a template of the kind with `n` data ports implements. -/
def body : Routing → Nat → TemplateBody
  | .split, n => .split n
  | .merge, n => .merge n
  | .mixer, n => .mixer n
  | .arbiter, n => .arbiter n

end Routing

/-- The trees of the results of a unit. -/
def FunctionalUnit.graph (fu : FunctionalUnit) : CostGraph :=
  fu.statements.foldl (fun g st => g.push st.op) .empty

/-- The port costs of a template: an element with one input and one output and
    a join charge their output, a split and a unit charge every output, and a
    unit divides the energy among them. -/
def TemplateBody.portCosts (body : TemplateBody) (cost : Option Cost) : List PortCost :=
  cost.elim [] fun c =>
    match body with
    | .copy | .buffer => Lowering.throughCosts c
    | .sink | .source => [⟨"x", c.delay, c.energy⟩]
    | .split n => (List.range n).map fun i => ⟨s!"out{i}", c.delay, c.energy⟩
    | .merge _ | .mixer _ | .arbiter _ => [⟨"out", c.delay, c.energy⟩]
    | .func fu => Lowering.unitPortCosts fu (some c)

/-- What a copy or an instance is an instance of. -/
inductive Component where
  | copy (width reads : Nat)
  | source (value width : Nat)
  | sink (width : Nat)
  | buffer (depth width : Nat)
  /-- An element with `ports` data ports and the widths that its template has as
      parameters. -/
  | routing (kind : Routing) (pipeline : Bool) (ports : Nat) (widths : List Nat)
  /-- A unit under the name of its template. -/
  | unit (fu : FunctionalUnit)
  deriving DecidableEq, Repr

namespace Component

/-- The template of a component. -/
def template : Component → Template
  | .copy _ _ => ⟨"copy", .copy⟩
  | .source _ _ => ⟨"source", .source⟩
  | .sink _ => ⟨"sink", .sink⟩
  | .buffer _ _ => ⟨"buffer", .buffer⟩
  | .routing kind pipeline ports _ =>
    ⟨Lowering.structuralName pipeline kind.text ports, kind.body ports⟩
  | .unit fu => ⟨fu.name, .func fu⟩

/-- The parameters of its template. -/
def params : Component → List Nat
  | .copy width reads => [width, reads]
  | .source value width => [value, width]
  | .sink width => [width]
  | .buffer depth width => [depth, width]
  | .routing _ _ _ widths => widths
  | .unit fu => fu.params

/-- The template name with its parameters. -/
def key (c : Component) : String :=
  c.template.name ++ "<" ++ String.intercalate "," (c.params.map toString) ++ ">"

/-- The port costs that are written for a cost. -/
def portCosts (c : Component) (cost : Option Cost) : List PortCost :=
  c.template.body.portCosts cost

/-- Find the cost of a component in a session. -/
def ask : Component → Session.Step (Option Cost)
  | .source value width => do return some (← Lowering.sourceCost value width)
  | .unit fu => Session.unitCost fu fu.graph
  | c => do return some (← Session.requireCost c.key)

/-- Is the cost of a component looked up under its own key? -/
def isRequired : Component → Bool
  | .source _ _ | .unit _ => false
  | _ => true

/-- Such a component is asked for like that. -/
theorem ask_of_isRequired {c : Component} (h : c.isRequired = true) :
    c.ask = do return some (← Session.requireCost c.key) := by
  cases c with
  | source value width => cases h
  | unit fu => cases h
  | _ => rfl

/-- The statistics after a component with a cost was written. -/
def count (c : Component) (cost : Option Cost) (stats : Statistics) : Except Error Statistics :=
  let stats :=
    match c with
    | .copy width reads => stats.recordCopy width reads
    | _ => stats
  match cost with
  | some cost => stats.record c.key cost
  | none => .ok stats

end Component

namespace Component

/-- A key with one parameter. -/
theorem key_one (name : String) (w : Nat) :
    name ++ "<" ++ String.intercalate "," ([w].map toString) ++ ">"
      = name ++ "<" ++ toString w ++ ">" := by
  rw [List.map_singleton, String.intercalate_singleton]

/-- A key with two parameters. -/
theorem key_two (name : String) (v w : Nat) :
    name ++ "<" ++ String.intercalate "," ([v, w].map toString) ++ ">"
      = name ++ "<" ++ toString v ++ "," ++ toString w ++ ">" := by
  rw [List.map_cons, List.map_singleton, String.intercalate_cons_cons,
    String.intercalate_singleton]
  simp only [String.append_assoc]

/-- The key of a copy. -/
theorem key_copy (sup : Supply) : (copy sup.width sup.reads).key = sup.key := by
  unfold key
  rw [params, key_two]
  rfl

/-- The key of a source. -/
theorem key_source (value width : Nat) :
    (source value width).key = Lowering.sourceKey value width := by
  unfold key
  rw [params, key_two]
  rfl

/-- The key of a sink. -/
theorem key_sink (width : Nat) : (sink width).key = Lowering.sinkKey width := by
  unfold key
  rw [params, key_one]
  rfl

/-- The key of a buffer. -/
theorem key_buffer (depth width : Nat) : (buffer depth width).key = bufferKey depth width := by
  unfold key
  rw [params, key_two]
  rfl

/-- The key of an element that routes tokens of one width. -/
theorem key_routing_one (kind : Routing) (pipeline : Bool) (ports w : Nat) :
    (routing kind pipeline ports [w]).key
      = Lowering.structuralName pipeline kind.text ports ++ "<" ++ toString w ++ ">" := by
  unfold key
  rw [params, key_one]
  rfl

/-- The key of one that also has a guard or a control channel. -/
theorem key_routing_two (kind : Routing) (pipeline : Bool) (ports v w : Nat) :
    (routing kind pipeline ports [v, w]).key
      = Lowering.structuralName pipeline kind.text ports ++ "<" ++ toString v ++ "," ++
          toString w ++ ">" := by
  unfold key
  rw [params, key_two]
  rfl

end Component

section Widths

/-- A width is looked up exactly if there is one. -/
theorem width_ok_iff (s : Scope) (id : ChannelId) (w : Nat) :
    s.width id = .ok w ↔ s.width? id = some w := by
  unfold Scope.width
  cases s.width? id with
  | none => simp only [reduceCtorEq]
  | some v => rw [Except.ok.injEq, Option.some.injEq]

/-- The width of a root; other identities have none. -/
def Scope.widthOf (s : Scope) (id : ChannelId) : Nat :=
  (s.width? id).getD 0

/-- A width that was looked up. -/
theorem Scope.widthOf_of_ok (s : Scope) (id : ChannelId) (w : Nat) (h : s.width id = .ok w) :
    s.widthOf id = w := by
  rw [Scope.widthOf, (width_ok_iff s id w).mp h, Option.getD_some]

end Widths

section Templates

/-- The template name of an instance key: what stands before the bracket. -/
def templateOf (key : String) : String :=
  String.ofList (key.toList.takeWhile (· ≠ '<'))

/-- A component whose unit, if it is one, has a name that says what it
    computes. -/
def Component.Spelled : Component → Prop
  | .unit fu => fu.Spelled
  | _ => True

namespace Component

/-- The first letters of a template name, by which kinds are told apart. -/
def initials : Component → List Char
  | .copy _ _ => ['c', 'o']
  | .source _ _ => ['s', 'o']
  | .sink _ => ['s', 'i']
  | .buffer _ _ => ['b', 'u']
  | .routing _ true _ _ => ['p', 'i']
  | .routing _ false _ _ => ['u', 'n']
  | .unit _ => ['f', 'u']

/-- The pieces of the name of an element that routes tokens. -/
theorem structuralName_toList (pipeline : Bool) (kind : Routing) (n : Nat) :
    (Lowering.structuralName pipeline kind.text n).toList
      = (if pipeline then ['p', 'i', 'p', 'e'] else ['u', 'n', 'p', 'i', 'p', 'e']) ++
          '_' :: (kind.text.toList ++ Nat.toDigits 10 n) := by
  unfold Lowering.structuralName
  rw [String.toList_append, String.toList_append, String.toList_append, Text.toString_toList]
  cases pipeline <;> rfl

/-- Names start with the letters of their kind. -/
theorem initials_eq (c : Component) (hc : c.Spelled) :
    c.template.name.toList.take 2 = c.initials := by
  cases c with
  | routing kind pipeline ports widths =>
      rw [template, structuralName_toList]
      cases pipeline <;> rfl
  | unit fu =>
      rcases hc.name_toList with ⟨⟨cs, hcs⟩, _⟩
      rw [template, hcs]
      rfl
  | _ => simp [template, initials]

/-- No template name holds a bracket. -/
theorem bracket_notMem_name (c : Component) (hc : c.Spelled) : '<' ∉ c.template.name.toList := by
  cases c with
  | routing kind pipeline ports widths =>
      -- Digits and words hold no bracket.
      have hdigits : '<' ∉ Nat.toDigits 10 ports := fun hmem =>
        absurd (Text.isDigit_toDigits ports '<' hmem) (by decide)
      rw [template, structuralName_toList]
      cases pipeline <;> cases kind <;> simp [Routing.text, hdigits]
  | unit fu => exact hc.name_toList.2
  | _ => simp [template]

/-- The template name is read off the key. -/
theorem templateOf_key (c : Component) (hc : c.Spelled) : templateOf c.key = c.template.name := by
  -- The name runs up to the first bracket of the key.
  have hall : ∀ a ∈ c.template.name.toList, decide (a ≠ '<') = true := by
    intro a ha
    refine decide_eq_true ?_
    rintro rfl
    exact c.bracket_notMem_name hc ha
  unfold templateOf key
  rw [String.toList_append, String.toList_append, String.toList_append, List.append_assoc,
    List.append_assoc, List.takeWhile_append_of_pos hall]
  simp

/-- The name decides the kind and the number of ports. -/
theorem structuralName_inj (pipeline pipeline' : Bool) (kind kind' : Routing) (n n' : Nat)
    (h : Lowering.structuralName pipeline kind.text n
      = Lowering.structuralName pipeline' kind'.text n') :
    kind = kind' ∧ n = n' := by
  have hlist := congrArg String.toList h
  rw [structuralName_toList, structuralName_toList] at hlist
  -- The kinds are told apart by their letters, and what is left are digits.
  have hdigits : Nat.toDigits 10 n = Nat.toDigits 10 n' ∧ kind = kind' := by
    cases pipeline <;> cases pipeline' <;> cases kind <;> cases kind' <;>
      simp_all [Routing.text]
  exact ⟨hdigits.2, toDigits_inj n n' hdigits.1⟩

/-- Components with the same template name have the same template, unless they
    are units. -/
theorem template_eq_of_name (c d : Component) (hc : c.Spelled) (hd : d.Spelled)
    (h : c.template.name = d.template.name) :
    c.template = d.template ∨ ∃ fu gu, c = .unit fu ∧ d = .unit gu := by
  -- Two kinds of components never start with the same two letters.
  have hinitials : c.initials = d.initials := by
    rw [← c.initials_eq hc, ← d.initials_eq hd, h]
  cases c with
  | unit fu =>
      cases d with
      | unit gu => exact Or.inr ⟨fu, gu, rfl, rfl⟩
      | routing kind pipeline ports widths =>
          cases pipeline <;> cases hinitials
      | _ => cases hinitials
  | routing kind pipeline ports widths =>
      cases d with
      | routing kind' pipeline' ports' widths' =>
          rcases structuralName_inj pipeline pipeline' kind kind' ports ports' h with ⟨rfl, rfl⟩
          left
          rw [template, template, Template.mk.injEq]
          exact ⟨h, rfl⟩
      | _ => cases pipeline <;> cases hinitials
  | _ =>
      cases d with
      | routing kind pipeline ports widths => cases pipeline <;> cases hinitials
      | _ => first
        | cases hinitials; done
        | exact Or.inl rfl

/-- A component under the name that its template has if `T` is the table of
    bodies. -/
def under (T : Bodies) : Component → Component
  | .unit fu => .unit (fu.under T)
  | c => c

/-- A component stays spelled under the name of its template. -/
theorem Spelled.under {c : Component} (h : c.Spelled) (T : Bodies) : (c.under T).Spelled := by
  cases c with
  | unit fu => exact FunctionalUnit.Spelled.under h T
  | _ => trivial

end Component

end Templates

end DataflowCircuit
