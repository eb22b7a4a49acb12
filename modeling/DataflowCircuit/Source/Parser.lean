/-!
# Ordered-Choice Parsers

A parser reads a prefix of a list of characters and returns a value and the
rest, or fails. Choice is ordered: the second alternative is tried only if
the first fails, and nothing is tried again once it succeeded.

When a whole file is refused, the diagnostic says what was expected at the
furthest place that was reached. That takes a second walk, which records the
named rules that failed there. The walk is a separate component of a parser,
`trace`, built together with `run` by every combinator but read by none of
the runs. Success and failure therefore never depend on what was recorded,
and the walk is only paid for when there is something to report.

A named rule that fails is recorded at its start, in place of what its parts
recorded there. The exception is a rule whose parts recorded exactly one
failure at its start: that one says more and stays. Recording is never undone
by a later alternative.

## Main definitions

* `Trail`: The furthest place reached and the rules that failed there.
* `Trail.record`: Record a failed rule.
* `Parser`: A run and the walk that goes with it.
* `Parser.rule`: A named rule.
* `Parser.orElse`, `Parser.optional`, `Parser.many`: Choice and repetition.
* `Parser.lexeme`: A parser from a plain reading function.
-/

namespace DataflowCircuit

namespace Source

/-- The furthest place at which a named rule failed, as the number of
    characters left there, and the rules that failed at it in order. -/
structure Trail (ρ : Type) where
  left : Nat
  rules : List ρ

namespace Trail

variable {ρ : Type}

/-- The number of failures recorded at the place with `left` characters
    left. -/
def count (t : Trail ρ) (left : Nat) : Nat :=
  if t.left = left then t.rules.length else 0

/-- Record that `r` failed with `left` characters left, where `before` rules
    were recorded at that place before it was tried. A place that was passed
    already is of no interest. -/
def record (t : Trail ρ) (r : ρ) (left before : Nat) : Trail ρ :=
  if t.count left - before = 1 then t
  else if t.left = left then ⟨left, t.rules.take before ++ [r]⟩
  else if left < t.left then ⟨left, [r]⟩
  else t

end Trail

/-- A parser with named rules `ρ`. -/
structure Parser (ρ α : Type) where
  /-- The value read and the rest of the text. -/
  run : List Char → Option (α × List Char)
  /-- What the run adds to the record of failures. -/
  trace : List Char → Trail ρ → Trail ρ

namespace Parser

variable {ρ α β : Type}

/-- Read nothing. -/
protected def pure (a : α) : Parser ρ α where
  run cs := some (a, cs)
  trace _ t := t

/-- Read `p`, then what `f` makes of its value. -/
protected def bind (p : Parser ρ α) (f : α → Parser ρ β) : Parser ρ β where
  run cs :=
    match p.run cs with
    | none => none
    | some (a, rest) => (f a).run rest
  trace cs t :=
    match p.run cs with
    | none => p.trace cs t
    | some (a, rest) => (f a).trace rest (p.trace cs t)

instance : Monad (Parser ρ) where
  pure := Parser.pure
  bind := Parser.bind

/-- A parser from a plain reading function, in which no rule is named. -/
def lexeme (read : List Char → Option (α × List Char)) : Parser ρ α where
  run := read
  trace _ t := t

/-- Refuse every text. -/
def fail : Parser ρ α :=
  lexeme fun _ => none

/-- Read exactly the characters of `s`. -/
def literal (s : String) : Parser ρ Unit :=
  lexeme fun cs => (s.toList.isPrefixOf? cs).map fun rest => ((), rest)

/-- The text that is still to be read. -/
def rest : Parser ρ (List Char) :=
  lexeme fun cs => some (cs, cs)

/-- Read `p`, or `q` if `p` fails. -/
def orElse (p q : Parser ρ α) : Parser ρ α where
  run cs :=
    match p.run cs with
    | some r => some r
    | none => q.run cs
  trace cs t :=
    match p.run cs with
    | some _ => p.trace cs t
    | none => q.trace cs (p.trace cs t)

/-- The first of a list of alternatives that succeeds. -/
def choice : List (Parser ρ α) → Parser ρ α
  | [] => fail
  | p :: ps => p.orElse (choice ps)

/-- Read `p` if it succeeds, and nothing otherwise. -/
def optional (p : Parser ρ α) : Parser ρ (Option α) where
  run cs :=
    match p.run cs with
    | some (a, rest) => some (some a, rest)
    | none => some (none, cs)
  trace := p.trace

/-- A parser that is built when it is first used, so that a grammar that
    refers to itself is unfolded only as far as the text is nested. -/
def delay (p : Unit → Parser ρ α) : Parser ρ α where
  run cs := (p ()).run cs
  trace cs t := (p ()).trace cs t

/-- A named rule. -/
def rule (r : ρ) (p : Parser ρ α) : Parser ρ α where
  run := p.run
  trace cs t :=
    let left := cs.length
    let after := p.trace cs t
    match p.run cs with
    | some _ => after
    | none => after.record r left (t.count left)

/-- Further rounds of a repetition: each skips with `skip` and reads `p`. A
    round that fails gives back what it skipped. -/
def roundsRun (skip : List Char → List Char) (p : Parser ρ α) :
    Nat → List Char → List α × List Char
  | 0, cs => ([], cs)
  | fuel + 1, cs =>
    match p.run (skip cs) with
    | none => ([], cs)
    | some (a, rest) =>
      let (as, rest) := roundsRun skip p fuel rest
      (a :: as, rest)

/-- What further rounds of a repetition add to the record of failures. -/
def roundsTrace (skip : List Char → List Char) (p : Parser ρ α) :
    Nat → List Char → Trail ρ → Trail ρ
  | 0, _, t => t
  | fuel + 1, cs, t =>
    match p.run (skip cs) with
    | none => p.trace (skip cs) t
    | some (_, rest) => roundsTrace skip p fuel rest (p.trace (skip cs) t)

/-- Read `p` as often as it succeeds, with `skip` between two rounds. Every
    round that succeeds reads at least one character and the last round fails,
    so there is at most one round more than there are characters. -/
def many (skip : List Char → List Char) (p : Parser ρ α) : Parser ρ (List α) where
  run cs :=
    match p.run cs with
    | none => some ([], cs)
    | some (a, rest) =>
      let (as, rest) := roundsRun skip p (rest.length + 1) rest
      some (a :: as, rest)
  trace cs t :=
    match p.run cs with
    | none => p.trace cs t
    | some (_, rest) => roundsTrace skip p (rest.length + 1) rest (p.trace cs t)

end Parser

end Source

end DataflowCircuit
