import DataflowCircuit.Source.Precedence

/-!
# Text Without Superfluous Parentheses

How an expression is written with as few parentheses as possible, and that the
nesting of chains undoes it.

The writer goes by a table of the operators, from those that bind weakest on, and
knows nothing of chains: it passes down how tightly an operand has to bind, and
puts parentheses where it binds less. Operators of a row associate to the left,
so the right operand of an operator has to bind tighter than the operator and
the left one only as tightly.

The text of an expression is therefore a chain with the operators that were left
bare. The chain of an expression is computed here beside the text, together with
the statement that nesting it gives the expression back. Nesting goes through
the rows one after another and cuts the chain at the operators of a row. The
last of these is the one at the root, and what is behind it binds tighter; what
is in front of it is the chain of the left operand, in which the same row comes
next. So there is one induction on the rows that are left, and inside it one on
the expression.

## Main definitions

* `bindingTable`, `rank`: The binary operators by how tightly they bind.
* `Expr.tokens`: An expression in tokens, in a place that asks it to bind tightly
  enough.
* `Expr.chain`: The operands and operators between them that stay bare.

## Theorems

* `tokens_chain`: The tokens of an expression are those of its chain.
* `cutAt_append`: Where a chain is cut that ends in a tighter one.
* `nest_chain`: Nesting the chain of an expression gives the expression.
-/

namespace DataflowCircuit

namespace Source

/-- The binary operators, from those that bind weakest on. Operators of one row
    bind alike and associate to the left. -/
def bindingTable : List (List BinOp) :=
  [[.or], [.xor], [.and], [.eq, .ne], [.lt, .gt, .le, .ge], [.lsl, .lsr, .asr], [.add, .minus],
   [.mul, .div, .mod]]

/-- The row of an operator. -/
def rank (op : BinOp) : Nat :=
  bindingTable.findIdx (op ∈ ·)

/-- The table says what the grammar says. -/
theorem rank_eq_level (op : BinOp) : rank op = op.level := by
  cases op <;> rfl

/-- Every operator has a row. -/
theorem rank_lt_levels (op : BinOp) : rank op < levels := by
  cases op <;> decide

/-- Tokens, in parentheses if these are needed. -/
def enclose (needed : Bool) (tokens : List String) : List String :=
  if needed then "(" :: tokens ++ [")"] else tokens

/-- The tokens behind the argument of a cast to a width. -/
def widthTokens : Option Nat → List String
  | none => [")"]
  | some w => [",", toString w, ")"]

namespace Expr

/-- How tightly an operand of a prefix operator has to bind: tighter than every
    binary operator. -/
def prefixBinding : Nat := 9

/-- The tokens of an expression in a place where it has to bind at least as
    tightly as `min`, with parentheses only if it does not. Anything may stand
    where `min` is zero, a binary operator of row `r` binds as `r + 1`, and the
    branches of a conditional and the arguments of casts need no parentheses. -/
def tokens (min : Nat) : Expr → List String
  | .const v => [toString v]
  | .var name => [name]
  | .binary op lhs rhs => enclose (rank op + 1 < min)
      (lhs.tokens (rank op + 1) ++ op.symbol :: rhs.tokens (rank op + 2))
  | .unary op arg => op.sourceSymbol :: arg.tokens prefixBinding
  | .query cond then_ else_ => enclose (0 < min)
      (cond.tokens 1 ++ "?" :: (then_.tokens 0 ++ ":" :: else_.tokens 0))
  | .intCast arg width => "int" :: "(" :: (arg.tokens 0 ++ widthTokens width)
  | .boolCast arg => "bool" :: "(" :: (arg.tokens 0 ++ [")"])

/-- The first operand and the links behind it that an expression is written as
    where it has to bind as tightly as `min`. An operator that would need
    parentheses is inside an operand. -/
def chain (min : Nat) : Expr → Expr × List Link
  | .binary op lhs rhs =>
    if rank op + 1 < min then (.binary op lhs rhs, [])
    else
      ((lhs.chain (rank op + 1)).1, (lhs.chain (rank op + 1)).2 ++
        (op, (rhs.chain (rank op + 2)).1) :: (rhs.chain (rank op + 2)).2)
  | e => (e, [])

/-- The tokens of a link. -/
def linkTokens (l : Link) : List String :=
  l.1.symbol :: l.2.tokens prefixBinding

/-- An operator that binds less than it has to is inside an operand. -/
theorem chain_of_loose (min : Nat) (op : BinOp) (lhs rhs : Expr) (h : rank op + 1 < min) :
    (Expr.binary op lhs rhs).chain min = (.binary op lhs rhs, []) := by
  rw [chain, if_pos h]

/-- One that binds tightly enough joins the chains of its operands. -/
theorem chain_of_tight (min : Nat) (op : BinOp) (lhs rhs : Expr) (h : min ≤ rank op + 1) :
    (Expr.binary op lhs rhs).chain min = ((lhs.chain (rank op + 1)).1,
      (lhs.chain (rank op + 1)).2 ++
        (op, (rhs.chain (rank op + 2)).1) :: (rhs.chain (rank op + 2)).2) := by
  rw [chain, if_neg (Nat.not_lt_of_le h)]

/-- A binary operator needs parentheses where it binds less than it has to. -/
theorem tokens_binary_enclosed (min : Nat) (op : BinOp) (lhs rhs : Expr)
    (h : rank op + 1 < min) :
    (Expr.binary op lhs rhs).tokens min = "(" :: (Expr.binary op lhs rhs).tokens 0 ++ [")"] := by
  simp [tokens, enclose, h]

/-- Where a binary operator binds tightly enough, it is written bare. -/
theorem tokens_binary_bare (min : Nat) (op : BinOp) (lhs rhs : Expr) (h : min ≤ rank op + 1) :
    (Expr.binary op lhs rhs).tokens min
      = lhs.tokens (rank op + 1) ++ op.symbol :: rhs.tokens (rank op + 2) := by
  simp [tokens, enclose, Nat.not_lt_of_le h]

/-- A conditional needs parentheses wherever an operator or a conditional asks
    for an operand. -/
theorem tokens_query_enclosed (min : Nat) (c t e : Expr) (h : 0 < min) :
    (Expr.query c t e).tokens min = "(" :: (Expr.query c t e).tokens 0 ++ [")"] := by
  simp [tokens, enclose, h]

/-- Where anything may stand, a conditional is written bare. -/
theorem tokens_query_bare (c t e : Expr) :
    (Expr.query c t e).tokens 0 = c.tokens 1 ++ "?" :: (t.tokens 0 ++ ":" :: e.tokens 0) :=
  rfl

/-- The tokens of an expression are those of its chain. -/
theorem tokens_chain (e : Expr) (min : Nat) (hmin : 0 < min) :
    e.tokens min = (e.chain min).1.tokens prefixBinding ++ (e.chain min).2.flatMap linkTokens := by
  induction e generalizing min with
  | binary op lhs rhs ihl ihr =>
      by_cases h : rank op + 1 < min
      -- Under a prefix operator, too, the operator would need parentheses.
      · have hprefix : rank op + 1 < prefixBinding := Nat.succ_lt_succ (rank_lt_levels op)
        rw [chain_of_loose min op lhs rhs h, tokens_binary_enclosed min op lhs rhs h,
          List.flatMap_nil, List.append_nil, tokens_binary_enclosed _ op lhs rhs hprefix]
      · rw [chain_of_tight min op lhs rhs (Nat.le_of_not_lt h),
          tokens_binary_bare min op lhs rhs (Nat.le_of_not_lt h)]
        rw [ihl (rank op + 1) (Nat.succ_pos _), ihr (rank op + 2) (Nat.succ_pos _)]
        simp only [List.flatMap_append, List.flatMap_cons, linkTokens, List.append_assoc,
          List.cons_append]
  | query c t e =>
      have hchain : (query c t e).chain min = (query c t e, []) := rfl
      rw [hchain, List.flatMap_nil, List.append_nil, tokens_query_enclosed min c t e hmin,
        tokens_query_enclosed prefixBinding c t e (by decide)]
  | const v => simp [chain, tokens]
  | var name => simp [chain, tokens]
  | unary op arg => simp [chain, tokens]
  | intCast arg width => simp [chain, tokens]
  | boolCast arg => simp [chain, tokens]

/-- The operators of a chain bind as tightly as the chain has to. -/
theorem chain_rank (e : Expr) (min : Nat) : ∀ l ∈ (e.chain min).2, min ≤ rank l.1 + 1 := by
  induction e generalizing min with
  | binary op lhs rhs ihl ihr =>
      by_cases h : rank op + 1 < min
      · rw [chain_of_loose min op lhs rhs h]
        exact fun _ hl => absurd hl List.not_mem_nil
      · rw [chain_of_tight min op lhs rhs (Nat.le_of_not_lt h), List.forall_mem_append,
          List.forall_mem_cons]
        refine ⟨fun l hl => ?_, Nat.le_of_not_lt h, fun l hl => ?_⟩
        · have hle := ihl (rank op + 1) l hl
          omega
        -- On the right the place asks for more than the operator has.
        · have hle := ihr (rank op + 2) l hl
          omega
  | _ => exact fun _ hl => absurd hl List.not_mem_nil

end Expr

section Nesting

/-- A chain is cut at an operator of the level. -/
theorem cutAt_cons_of_eq (level : Nat) (op : BinOp) (e : Expr) (links : List Link)
    (h : op.level = level) :
    cutAt level ((op, e) :: links)
      = ([], (op, e, (cutAt level links).1) :: (cutAt level links).2) := by
  simp only [cutAt, if_pos h]

/-- At any other operator it goes on. -/
theorem cutAt_cons_of_ne (level : Nat) (op : BinOp) (e : Expr) (links : List Link)
    (h : op.level ≠ level) :
    cutAt level ((op, e) :: links)
      = ((op, e) :: (cutAt level links).1, (cutAt level links).2) := by
  simp only [cutAt, if_neg h]

/-- A chain without operators of a level is not cut. -/
theorem cutAt_of_forall_ne (level : Nat) (links : List Link)
    (h : ∀ l ∈ links, l.1.level ≠ level) : cutAt level links = (links, []) := by
  induction links with
  | nil => rfl
  | cons l links ih =>
      rw [List.forall_mem_cons] at h
      rw [cutAt_cons_of_ne level l.1 l.2 links h.1, ih h.2]

/-- The last operator of a level cuts off what is behind it. -/
theorem cutAt_append (level : Nat) (links tail : List Link) (op : BinOp) (e : Expr)
    (hop : op.level = level) (htail : ∀ l ∈ tail, l.1.level ≠ level) :
    cutAt level (links ++ (op, e) :: tail)
      = ((cutAt level links).1, (cutAt level links).2 ++ [(op, e, tail)]) := by
  induction links with
  | nil =>
      rw [List.nil_append, cutAt_cons_of_eq level op e tail hop,
        cutAt_of_forall_ne level tail htail]
      rfl
  | cons l links ih =>
      rw [List.cons_append]
      -- The operator in front may belong to the level as well, and is then an earlier cut.
      by_cases hl : l.1.level = level
      · rw [cutAt_cons_of_eq level l.1 l.2 _ hl, cutAt_cons_of_eq level l.1 l.2 _ hl, ih]
        rfl
      · rw [cutAt_cons_of_ne level l.1 l.2 _ hl, cutAt_cons_of_ne level l.1 l.2 _ hl, ih]

/-- The pieces of a row are nested by the rows behind it, and joined from the
    left. -/
theorem nestLevels_succ (left : Nat) (e : Expr) (links : List Link) :
    nestLevels (left + 1) e links
      = (cutAt (levels - (left + 1)) links).2.foldl
        (fun acc piece => .binary piece.1 acc (nestLevels left piece.2.1 piece.2.2))
        (nestLevels left e (cutAt (levels - (left + 1)) links).1) :=
  rfl

/-- A chain without operators of a row nests like the rows behind it. -/
theorem nestLevels_of_forall_ne (left : Nat) (e : Expr) (links : List Link)
    (h : ∀ l ∈ links, l.1.level ≠ levels - (left + 1)) :
    nestLevels (left + 1) e links = nestLevels left e links := by
  rw [nestLevels_succ, cutAt_of_forall_ne _ links h]
  rfl

/-- The last operator of a row joins what is in front of it and behind it. -/
theorem nestLevels_append (left : Nat) (e e' : Expr) (links tail : List Link) (op : BinOp)
    (hop : op.level = levels - (left + 1))
    (htail : ∀ l ∈ tail, l.1.level ≠ levels - (left + 1)) :
    nestLevels (left + 1) e (links ++ (op, e') :: tail)
      = .binary op (nestLevels (left + 1) e links) (nestLevels left e' tail) := by
  rw [nestLevels_succ, nestLevels_succ, cutAt_append _ links tail op e' hop htail,
    List.foldl_append]
  rfl

/-- With `left` rows to go, nesting the chain of an expression that keeps the
    operators of these rows bare gives the expression. -/
theorem nestLevels_chain (left min : Nat) (hpos : 0 < min) (hmin : min + left = levels + 1)
    (e : Expr) :
    nestLevels left (e.chain min).1 (e.chain min).2 = e := by
  -- The rows that are left count down as the place asks for more.
  induction left generalizing min e with
  | zero =>
      -- No operator binds that tightly, so the expression is one operand.
      cases e with
      | binary op lhs rhs =>
          have hlt := rank_lt_levels op
          rw [Expr.chain_of_loose min op lhs rhs (by omega)]
          rfl
      | _ => rfl
  | succ left ihleft =>
      have hlevel : levels - (left + 1) = min - 1 := by omega
      induction e with
      | binary op lhs rhs ihl _ =>
          rcases Nat.lt_trichotomy (rank op + 1) min with hlt | heq | hgt
          · rw [Expr.chain_of_loose min op lhs rhs hlt]
            exact nestLevels_nil _ _
          · -- The operator is the last one of the row.
            have hop : op.level = levels - (left + 1) := by
              rw [← rank_eq_level]
              omega
            -- What is behind it binds tighter.
            have htail : ∀ l ∈ (rhs.chain (rank op + 2)).2,
                l.1.level ≠ levels - (left + 1) := by
              intro l hl
              have hrank := Expr.chain_rank rhs (rank op + 2) l hl
              rw [← rank_eq_level]
              omega
            rw [Expr.chain_of_tight min op lhs rhs (Nat.le_of_eq heq.symm),
              nestLevels_append left _ _ _ _ op hop htail, heq, ihl,
              ihleft (rank op + 2) (by omega) (by omega) rhs]
          · -- The row does not occur, and the chain is the same for the next one.
            have hsame : (Expr.binary op lhs rhs).chain min
                = (Expr.binary op lhs rhs).chain (min + 1) := by
              rw [Expr.chain_of_tight min op lhs rhs (by omega),
                Expr.chain_of_tight (min + 1) op lhs rhs (by omega)]
            have hnone : ∀ l ∈ ((Expr.binary op lhs rhs).chain (min + 1)).2,
                l.1.level ≠ levels - (left + 1) := by
              intro l hl
              have hrank := Expr.chain_rank _ (min + 1) l hl
              rw [← rank_eq_level]
              omega
            rw [hsame, nestLevels_of_forall_ne left _ _ hnone,
              ihleft (min + 1) (by omega) (by omega)]
      | _ => exact nestLevels_nil _ _

/-- Nesting the chain of an expression gives the expression. -/
theorem nest_chain (e : Expr) : nest (e.chain 1).1 (e.chain 1).2 = e :=
  nestLevels_chain levels 1 (by decide) (Nat.add_comm 1 levels) e

end Nesting

end Source

end DataflowCircuit
