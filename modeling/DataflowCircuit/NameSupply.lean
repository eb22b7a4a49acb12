/-!
# Fresh Names

Lowering invents channels: one for every split output that nobody reads, and
one in front of every buffer. Their names must differ from every declared
name and from each other, and they should look like what they stand for, so a
fresh name is a stem with a number after it.

There are two ways to ask. A numbered name always carries a counter. A plain
name is the stem itself if that is free; if it is taken, the search goes on
with the name just refused as the new stem, so the stem grows by the counters
that were in the way. Both draw on the same counters, one per stem, and a
counter starts one lower for a plain name because its first use adds nothing
to the stem.

The searches end because every refused name is taken and, apart from a stem
that is tried once bare, no name is tried twice; the number of taken names
bounds the steps and is the fuel.

## Main definitions

* `NameSupply`: The counters and the names that are taken.
* `NameSupply.ofNames`: A supply that avoids the given names.
* `NameSupply.numbered`: A stem with the next free number.
* `NameSupply.plain`: The stem itself if it is free, else a longer name.
* `NameSupply.Request`, `NameSupply.answer`: Either of them, as an answer to a
  request.
-/

namespace DataflowCircuit

/-- The counter last used for each stem, and the names that are taken. -/
structure NameSupply where
  counters : List (String × Int)
  taken : List String
  deriving Repr

namespace NameSupply

/-- A supply that never hands out one of `names`. -/
def ofNames (names : List String) : NameSupply :=
  ⟨[], names⟩

/-- Set the counter of a stem. -/
def setCounter (stem : String) (n : Int) : List (String × Int) → List (String × Int)
  | [] => [(stem, n)]
  | (s, m) :: rest => if s = stem then (s, n) :: rest else (s, m) :: setCounter stem n rest

/-- Advance the counter of `stem`, which is `first` if the stem is new. -/
def advance (ns : NameSupply) (stem : String) (first : Int) : Int × NameSupply :=
  let n := match ns.counters.lookup stem with
    | some n => n + 1
    | none => first
  (n, { ns with counters := setCounter stem n ns.counters })

/-- Mark a name as taken. -/
def take (ns : NameSupply) (name : String) : NameSupply :=
  { ns with taken := name :: ns.taken }

/-- Try the numbers of `stem` one after another. -/
def numberedLoop (stem : String) : Nat → NameSupply → String × NameSupply
  | 0, ns => (stem, ns)
  | fuel + 1, ns =>
    let (n, ns) := ns.advance stem 0
    let name := stem ++ toString n
    if name ∈ ns.taken then numberedLoop stem fuel ns else (name, ns.take name)

/-- A fresh name made of `stem` and a number. -/
def numbered (ns : NameSupply) (stem : String) : String × NameSupply :=
  numberedLoop stem (ns.taken.length + 1) ns

/-- Try `stem`, or the stem with its next number, and go on with the refused
    name as the stem. -/
def plainLoop : Nat → String → NameSupply → String × NameSupply
  | 0, stem, ns => (stem, ns)
  | fuel + 1, stem, ns =>
    let (n, ns) := ns.advance stem (-1)
    let name := if n = -1 then stem else stem ++ toString n
    if name ∈ ns.taken then plainLoop fuel name ns else (name, ns.take name)

/-- A fresh name that starts with `stem`, the stem itself if it is free. -/
def plain (ns : NameSupply) (stem : String) : String × NameSupply :=
  plainLoop (2 * ns.taken.length + 2) stem ns

/-- What a supply can be asked for: a stem with a number, or a stem that stays
    bare if it can. -/
inductive Request where
  | numbered (stem : String)
  | plain (stem : String)
  deriving DecidableEq, Repr

/-- The answer to a request. -/
def answer (ns : NameSupply) : Request → String × NameSupply
  | .numbered stem => ns.numbered stem
  | .plain stem => ns.plain stem

end NameSupply

end DataflowCircuit
