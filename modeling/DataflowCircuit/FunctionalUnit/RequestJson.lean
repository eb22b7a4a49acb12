import DataflowCircuit.FunctionalUnit.Request
import DataflowCircuit.Json.Reader

/-!
# Estimate Requests as JSON

Records are objects with their fields in a fixed order, and a value tree is
an object whose first field is its kind.

Reading is more generous than writing: fields may come in any order, fields
nobody knows are skipped, and a record may also be an array of its fields in
order. A field may not come twice. A tree is read as a whole before its kind
is known, so everything inside it has to be representable, and inside a tree
a kind may also be given by its number. Nesting is limited.

## Main definitions

* `EstimateRequest.toJson`: A request as a value.
* `EstimateRequest.ofJson?`: A request from a value.
* `EstimateRequest.render`, `EstimateRequest.read?`: The same as text.
-/

namespace DataflowCircuit

/-- A value tree as JSON. -/
def CostNode.toJson : CostNode → Json
  | .input name => .obj [("kind", .str "input"), ("name", .str name)]
  | .const value => .obj [("kind", .str "const"), ("value", .nat value)]
  | .binary op lhs rhs =>
    .obj [("kind", .str "binary"), ("op", .str op), ("lhs", lhs.toJson), ("rhs", rhs.toJson)]
  | .unary op arg => .obj [("kind", .str "unary"), ("op", .str op), ("arg", arg.toJson)]
  | .select c t e =>
    .obj [("kind", .str "select"), ("cond", c.toJson), ("then", t.toJson), ("els", e.toJson)]

/-- An input as JSON. -/
def Signal.toJson (s : Signal) : Json :=
  .obj [("name", .str s.name), ("width", .nat s.width)]

/-- A named value as JSON. -/
def Assignment.toJson (a : Assignment) : Json :=
  .obj [("name", .str a.name), ("width", .nat a.width), ("expr", a.expr.toJson)]

/-- A request as JSON. -/
def EstimateRequest.toJson (r : EstimateRequest) : Json :=
  .obj [
    ("name", .str r.name),
    ("inputs", .array (r.inputs.map Signal.toJson)),
    ("hidden", .array (r.hidden.map Assignment.toJson)),
    ("outputs", .array (r.outputs.map Assignment.toJson))]

/-- A request as compact text. -/
def EstimateRequest.render (r : EstimateRequest) : String :=
  r.toJson.render

namespace Json

/-- The value of a field that must be there exactly once. -/
def field? (fields : List (List Nat × Json)) (key : String) : Option Json :=
  match fields.filter (·.1 = pointsOf key) with
  | [(_, value)] => some value
  | _ => none

/-- The fields of a record, in the order of `keys`: from an object with keys
    that are texts, or from an array of exactly as many items. -/
def record? (keys : List String) : Json → Option (List Json)
  | .object fields =>
    if fields.all (fun f => (ofPoints? f.1).isSome) then keys.mapM (field? fields) else none
  | .array items => if items.length = keys.length then some items else none
  | _ => none

/-- Read every item of an array. -/
def items? {α : Type} (read : Json → Option α) : Json → Option (List α)
  | .array items => items.mapM read
  | _ => none

mutual

/-- Can a value be represented as a whole, within `depth` levels of nesting?
    Texts must be characters and numbers must be finite. -/
def isRepresentable (depth : Nat) : Json → Bool
  | .null => true
  | .bool _ => true
  | .number n => n.isFinite
  | .string points => (ofPoints? points).isSome
  | .array items => 0 < depth && areRepresentable (depth - 1) items
  | .object fields => 0 < depth && fieldsRepresentable (depth - 1) fields

/-- Can every item be represented? -/
def areRepresentable (depth : Nat) : List Json → Bool
  | [] => true
  | item :: items => isRepresentable depth item && areRepresentable depth items

/-- Can every field be represented? -/
def fieldsRepresentable (depth : Nat) : List (List Nat × Json) → Bool
  | [] => true
  | (key, value) :: fields =>
    (ofPoints? key).isSome && isRepresentable depth value && fieldsRepresentable depth fields

end

/-- The nesting below which a request may not go. -/
def depthLimit : Nat := 127

end Json

/-- The kinds of value trees, in their order. -/
def CostNode.kinds : List String :=
  ["input", "const", "binary", "unary", "select"]

/-- The kind that a tag names: a text, or its number if numbers are allowed. -/
def CostNode.kind? (numbered : Bool) (tag : Json) : Option String :=
  match tag with
  | .string points => (Json.ofPoints? points).bind fun k => if k ∈ kinds then some k else none
  | tag => if numbered then (tag.natural? UInt64.size).bind fun n => kinds[n]? else none

/-- The tag of a tree and what is left without it: a field `kind` that must be
    there once, or the first item of an array. -/
def CostNode.split? : Json → Option (Json × Json)
  | .object fields => do
    let tag ← Json.field? fields "kind"
    return (tag, .object (fields.filter (·.1 ≠ Json.pointsOf "kind")))
  | .array (tag :: items) => some (tag, .array items)
  | _ => none

/-- A value tree from JSON that nests at most `fuel` deep. -/
def CostNode.ofJson? : Nat → Bool → Json → Option CostNode
  | 0, _, _ => none
  | fuel + 1, numbered, j => do
    let (tag, rest) ← split? j
    let kind ← kind? numbered tag
    match kind with
    | "input" =>
      match ← rest.record? ["name"] with
      | [name] => return .input (← name.text?)
      | _ => none
    | "const" =>
      match ← rest.record? ["value"] with
      | [value] => return .const (← value.natural? UInt64.size)
      | _ => none
    | "binary" =>
      match ← rest.record? ["op", "lhs", "rhs"] with
      | [op, lhs, rhs] =>
        return .binary (← op.text?) (← ofJson? fuel true lhs) (← ofJson? fuel true rhs)
      | _ => none
    | "unary" =>
      match ← rest.record? ["op", "arg"] with
      | [op, arg] => return .unary (← op.text?) (← ofJson? fuel true arg)
      | _ => none
    | _ =>
      match ← rest.record? ["cond", "then", "els"] with
      | [c, t, e] =>
        return .select (← ofJson? fuel true c) (← ofJson? fuel true t) (← ofJson? fuel true e)
      | _ => none

/-- An input from JSON. -/
def Signal.ofJson? (j : Json) : Option Signal := do
  match ← j.record? ["name", "width"] with
  | [name, width] => return ⟨← name.text?, ← width.natural? UInt32.size⟩
  | _ => none

/-- A named value from JSON. Its tree stands three levels deep. -/
def Assignment.ofJson? (j : Json) : Option Assignment := do
  match ← j.record? ["name", "width", "expr"] with
  | [name, width, expr] =>
    if expr.isRepresentable (Json.depthLimit - 3) then
      return ⟨← name.text?, ← width.natural? UInt32.size, ← CostNode.ofJson? Json.depthLimit false expr⟩
    else none
  | _ => none

/-- A request from JSON. -/
def EstimateRequest.ofJson? (j : Json) : Option EstimateRequest := do
  match ← j.record? ["name", "inputs", "hidden", "outputs"] with
  | [name, inputs, hidden, outputs] =>
    return {
      name := ← name.text?
      inputs := ← inputs.items? Signal.ofJson?
      hidden := ← hidden.items? Assignment.ofJson?
      outputs := ← outputs.items? Assignment.ofJson? }
  | _ => none

/-- A request from its text. -/
def EstimateRequest.read? (text : String) : Option EstimateRequest :=
  (Json.read? text).bind ofJson?

end DataflowCircuit
