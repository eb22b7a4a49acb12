import DataflowCircuit.Proofs.Source.Arrays
import DataflowCircuit.Proofs.Source.Statements
import Mathlib.Data.List.TakeWhile

/-!
# What Is Read Is Well Formed

Every process that a text denotes has well-formed names, lengths and literals
that fit into a word, and statements of the shapes that the printer expects.
This is the other half of a round trip: it starts from a text that was
accepted, whatever it looks like.

`Yields` says what holds of every value that a parser returns, and follows the
way a parser is put together, so each rule of the grammar has one lemma. A
rule can also return a flaw, and what is said about its tree then says
nothing, which is `Sat`.

## Main definitions

* `Yields`: What holds of every value a parser returns.
* `Sat`: What holds of a tree, unless there is a flaw.
* `Expr.Bounded`: The literals of an expression fit into words.
* `CompactProcess.Accepted`: A process that can be the result of reading.

## Theorems

* `yields_bind`, `yields_repeated`: How parsers are put together.
* `yields_expr`, `yields_dataflow`: Expressions and statements.
* `yields_file`: Files.
-/

namespace DataflowCircuit

namespace Source

open DataflowCircuit.Source.Parser

/-- Every value that `p` returns satisfies `P`. -/
def Yields {α : Type} (p : Reader α) (P : α → Prop) : Prop :=
  ∀ cs a rest, p.run cs = some (a, rest) → P a

/-- A tree satisfies `P`, unless there is a flaw. -/
def Sat {α : Type} (P : α → Prop) (x : Checked α) : Prop :=
  ∀ a, x = .ok a → P a

section Combinators

variable {α β : Type} {p q : Reader α} {P : α → Prop} {Q : β → Prop}

/-- Nothing is claimed of what is returned. -/
theorem yields_true : Yields p fun _ => True :=
  fun _ _ _ _ => trivial

theorem yields_mono {P' : α → Prop} (hp : Yields p P) (himp : ∀ a, P a → P' a) : Yields p P' :=
  fun cs a rest h => himp a (hp cs a rest h)

theorem yields_pure (a : α) (ha : P a) : Yields (pure a : Reader α) P := by
  intro cs b rest h
  cases h
  exact ha

/-- The rest of a parser knows what its first part returned. -/
theorem yields_bind {k : α → Reader β} (hp : Yields p P) (hk : ∀ a, P a → Yields (k a) Q) :
    Yields (p >>= k) Q := by
  intro cs b rest h
  rw [bind_run] at h
  -- The rest is only run if the first part returned something.
  split at h
  · cases h
  · rename_i a cs₁ hrun
    exact hk a (hp cs a cs₁ hrun) cs₁ b rest h

/-- A part whose value does not matter. -/
theorem yields_then {k : α → Reader β} (hk : ∀ a, Yields (k a) Q) : Yields (p >>= k) Q :=
  yields_bind yields_true fun a _ => hk a

/-- The value of a part is passed on with what is known of it. -/
theorem yields_map (f : α → β) (hp : Yields p P) (hf : ∀ a, P a → Q (f a)) :
    Yields (p >>= fun a => pure (f a)) Q :=
  yields_bind hp fun a ha => yields_pure (f a) (hf a ha)

theorem yields_rule (r : Rule) (hp : Yields p P) : Yields (rule r p) P := hp

theorem yields_delay {f : Unit → Reader α} (hp : Yields (f ()) P) : Yields (delay f) P := hp

theorem yields_fail : Yields (fail : Reader α) P := by
  intro cs a rest h
  cases h

/-- A choice returns what one of its branches returns. -/
theorem yields_orElse (hp : Yields p P) (hq : Yields q P) : Yields (p.orElse q) P := by
  intro cs a rest h
  rw [orElse_run] at h
  -- The second branch is only tried if the first one failed.
  split at h
  · rename_i r hrun
    cases h
    exact hp cs a rest hrun
  · exact hq cs a rest h

/-- An option that returned something returned a value of its parser. -/
theorem yields_optional (hp : Yields p P) : Yields (optional p) fun x => ∀ a ∈ x, P a := by
  intro cs x rest h
  rw [optional_run] at h
  split at h
  · rename_i a cs₁ hrun
    cases h
    intro b hb
    cases hb
    exact hp cs a rest hrun
  · cases h
    exact fun b hb => absurd hb (Option.not_mem_none b)

/-- Every value of a repetition was returned by its parser. -/
theorem yields_rounds (hp : Yields p P) (fuel : Nat) (cs : List Char) :
    ∀ a ∈ (roundsRun skip p fuel cs).1, P a := by
  induction fuel generalizing cs with
  | zero => exact fun a ha => absurd ha List.not_mem_nil
  | succ fuel ih =>
      rw [roundsRun]
      split
      -- The first round that fails ends the repetition.
      · exact fun a ha => absurd ha List.not_mem_nil
      · rename_i a cs₁ hrun
        intro b hb
        rcases List.mem_cons.mp hb with rfl | hb
        · exact hp _ _ _ hrun
        · exact ih cs₁ b hb

/-- A repetition is a first value and the rounds behind it. -/
theorem yields_repeated (hp : Yields p P) : Yields (repeated p) fun as => ∀ a ∈ as, P a := by
  intro cs as rest h
  rw [repeated_run] at h
  -- The first round is special: it skips no blank.
  cases hrun : p.run cs with
  | none =>
      rw [hrun] at h
      cases h
      exact fun a ha => absurd ha List.not_mem_nil
  | some x =>
      rcases x with ⟨a, cs₁⟩
      rw [hrun] at h
      cases h
      intro b hb
      rcases List.mem_cons.mp hb with rfl | hb
      · exact hp cs b cs₁ hrun
      · exact yields_rounds hp (cs₁.length + 1) cs₁ b hb

/-- A list with separators has at least one item. -/
theorem yields_separated (sep : String) (hp : Yields p P) :
    Yields (separated sep p) fun as => as ≠ [] ∧ ∀ a ∈ as, P a := by
  refine yields_bind hp fun a ha => yields_then fun _ => yields_map _
    (yields_repeated (yields_then fun _ => yields_then fun _ => hp)) fun as has => ?_
  -- The first item stands without a separator, so there is one.
  refine ⟨List.cons_ne_nil a as, ?_⟩
  intro b hb
  rcases List.mem_cons.mp hb with rfl | hb
  · exact ha
  · exact has b hb

/-- Trees that are joined satisfy what each of them does. -/
theorem sat_joined {xs : List (Checked α)} (hxs : ∀ x ∈ xs, Sat P x) :
    Sat (fun ys => ∀ y ∈ ys, P y) (joined xs) :=
  fun ys h => forall_of_traverseList id (Sat P) P (fun _ y h hx => hx y h) xs ys h hxs

theorem sat_option {x : Option (Checked α)} (hx : ∀ a ∈ x, Sat P a) :
    Sat (fun y => ∀ b ∈ y, P b) (traverseOption id x) :=
  fun y h => forall_of_traverseOption id (Sat P) P (fun _ y h hx => hx y h) x y h hx

/-- A flaw in the first part is a flaw of the whole, and then nothing is
    claimed. -/
theorem sat_bind {x : Checked α} {k : α → Checked β} (hx : Sat P x) (hk : ∀ a, P a → Sat Q (k a)) :
    Sat Q (x >>= k) := by
  intro b h
  rcases except_bind_ok_iff.mp h with ⟨a, ha, h₁⟩
  exact hk a (hx a ha) b h₁

theorem sat_true {x : Checked α} : Sat (fun _ => True) x :=
  fun _ _ => trivial

theorem sat_pure {a : α} (ha : P a) : Sat P (pure a : Checked α) := by
  intro b h
  cases h
  exact ha

/-- What is built from a tree is known from the tree. -/
theorem sat_map {x : Checked α} (f : α → β) (hx : Sat P x) (hf : ∀ a, P a → Q (f a)) :
    Sat Q (x.map f) := by
  intro b h
  cases x with
  | error e => cases h
  | ok a =>
      cases h
      exact hf a (hx a rfl)

end Combinators

section Words

/-- A number that was read fits into a word, because a larger one is a flaw. -/
theorem yields_number (r : Rule) (kind : FlawKind) (introducer : String) (base : Nat)
    (isDigit : Char → Bool) :
    Yields (number r kind introducer base isDigit) (Sat fun n => n < UInt64.size) := by
  intro cs x rest h n hn
  rw [number_run_eq] at h
  rcases Option.bind_eq_some_iff.mp h with ⟨digits, _, h₁⟩
  rcases Option.bind_eq_some_iff.mp h₁ with ⟨r, _, h₂⟩
  cases h₂
  -- The digits say nothing; the check behind them bounds the number.
  unfold checkWord64 at hn
  simp only [] at hn
  split at hn
  · rename_i hlt
    cases hn
    exact hlt
  · cases hn

/-- Whatever the base of a literal, its number fits. -/
theorem yields_numLit : Yields numLit (Sat fun n => n < UInt64.size) :=
  yields_rule _ (yields_orElse (yields_number _ _ _ _ _) (yields_orElse (yields_number _ _ _ _ _)
    (yields_orElse (yields_number _ _ _ _ _) yields_fail)))

theorem yields_bitwidth : Yields bitwidth (Sat fun n => n < UInt64.size) :=
  yields_number _ _ _ _ _

/-- A word that was read has the shape that its reader asks for. -/
theorem yields_word (r : Rule) (read : List Char → Option (List Char × List Char))
    (P : List Char → Prop) (hread : ∀ cs w rest, read cs = some (w, rest) → P w) :
    Yields (word r read) fun name => P name.toList := by
  intro cs name rest h
  change (read cs).map (fun r => (String.ofList r.1, r.2)) = some (name, rest) at h
  rcases Option.map_eq_some_iff.mp h with ⟨⟨w, r⟩, hw, heq⟩
  cases heq
  rw [String.toList_ofList]
  exact hread cs w _ hw

/-- What is read as an identifier is one. -/
theorem isIdent_of_identifier? (cs w rest : List Char) (h : identifier? cs = some (w, rest)) :
    IsIdent w := by
  cases cs with
  | nil => cases h
  | cons c cs =>
      rw [identifier?] at h
      split at h
      · rename_i hhead
        cases h
        -- The head was checked, and the rest was taken while it is a tail.
        exact ⟨c, cs.takeWhile isTail, rfl, hhead, fun d hd => List.mem_takeWhile_imp hd⟩
      · cases h

/-- Further segments are none, or a path after a point. -/
theorem isPath_of_segments (fuel : Nat) (cs more rest : List Char)
    (h : segments identifier? fuel cs = (more, rest)) :
    more = [] ∨ ∃ p, more = '.' :: p ∧ IsPath p := by
  induction fuel generalizing cs more rest with
  | zero =>
      cases h
      exact Or.inl rfl
  | succ fuel ih =>
      rw [segments.eq_def] at h
      simp only [] at h
      split at h
      · rename_i inner
        split at h
        · rename_i name r hname
          have hident := isIdent_of_identifier? inner name r hname
          cases h
          -- An identifier was read behind the point; what follows it is known by induction.
          rcases ih r _ _ rfl with hnil | ⟨p, hp, hpath⟩
          · refine Or.inr ⟨name, ?_, IsPath.single name hident⟩
            rw [hnil, List.append_nil]
          · refine Or.inr ⟨name ++ '.' :: p, ?_, IsPath.dot name p hident hpath⟩
            rw [hp]
            rfl
        · cases h
          exact Or.inl rfl
      · cases h
        exact Or.inl rfl

/-- What is read as a path is one. -/
theorem isPath_of_path? (cs w rest : List Char) (h : path? cs = some (w, rest)) : IsPath w := by
  change ((identifier? cs).bind fun r =>
    some (r.1 ++ (segments identifier? r.2.length r.2).1, (segments identifier? r.2.length r.2).2))
      = some (w, rest) at h
  rcases Option.bind_eq_some_iff.mp h with ⟨⟨name, r⟩, hname, h₁⟩
  have hident := isIdent_of_identifier? cs name r hname
  cases h₁
  rcases isPath_of_segments r.length r _ _ rfl with hnil | ⟨p, hp, hpath⟩
  · rw [hnil, List.append_nil]
    exact IsPath.single name hident
  · rw [hp]
    exact IsPath.dot name p hident hpath

end Words

section Declarations

/-- A declared name is a path with a positive length, if it has one. -/
theorem yields_declName : Yields declName (Sat DeclaredName.Valid) := by
  refine yields_rule _ (yields_then fun start => yields_bind
    (yields_word .chanPath path? IsPath isPath_of_path?) fun path hpath => ?_)
  have hlen : Yields arrayLen (Sat fun n => n < UInt64.size) :=
    yields_rule _ (yields_then fun _ => yields_bind yields_bitwidth fun length hlength =>
      yields_map (fun _ => length) yields_true fun _ _ => hlength)
  -- A length of zero is a flaw, so a length that is left is positive.
  refine yields_map _ (yields_optional hlen) fun length hlength => ?_
  refine sat_bind (sat_option hlength) fun length' hlength' => ?_
  intro d hd
  split at hd
  · cases hd
  · rename_i hzero
    cases hd
    refine ⟨hpath, fun n hn => ⟨?_, hlength' n hn⟩⟩
    refine Nat.pos_of_ne_zero ?_
    rintro rfl
    exact hzero hn

/-- All names of a list are valid. -/
theorem yields_declList : Yields declList (Sat fun ds => ∀ d ∈ ds, d.Valid) :=
  yields_rule _ (yields_map joined (yields_separated "," yields_declName)
    fun _ hds => sat_joined hds.2)

/-- The names of a group of ports are valid. -/
theorem yields_portGroup : Yields portGroup (Sat fun g => ∀ d ∈ g.names, d.Valid) := by
  refine yields_rule _ (yields_then fun _ => yields_then fun _ => yields_then fun direction =>
    yields_then fun _ => yields_then fun type => yields_then fun _ => ?_)
  exact yields_map _ yields_declList fun names hnames =>
    sat_bind sat_true fun _ _ => sat_bind hnames fun _ h => sat_pure h

/-- So are those of all groups, of which there may be none. -/
theorem yields_portList : Yields portList (Sat fun gs => ∀ g ∈ gs, ∀ d ∈ g.names, d.Valid) := by
  have hgroups := yields_separated ";" yields_portGroup
  refine yields_rule _ (yields_map _ (yields_optional (yields_bind hgroups fun groups hgroups =>
    yields_then fun _ => yields_map (fun _ => groups) yields_true fun _ _ => hgroups)) ?_)
  intro groups hgroups
  -- A process without ports has an empty list.
  cases groups with
  | none => exact sat_joined fun x hx => absurd hx List.not_mem_nil
  | some groups => exact sat_joined (hgroups groups rfl).2

/-- The names that an item declares are valid. -/
def BodyItem.Valid (i : BodyItem) : Prop :=
  ∀ type names, i = .declarations type names → ∀ d ∈ names, d.Valid

/-- Only declarations introduce names; connections are items as well. -/
theorem yields_bodyItem : Yields bodyItem (Sat BodyItem.Valid) := by
  refine yields_rule _ (yields_orElse ?_ (yields_orElse ?_ yields_fail))
  · refine yields_rule _ (yields_then fun _ => yields_then fun _ => yields_then fun type =>
      yields_then fun _ => yields_bind yields_declList fun names hnames => yields_then fun _ =>
        yields_map _ yields_true fun _ _ => ?_)
    refine sat_bind sat_true fun type' _ => sat_bind hnames fun names' hnames' => sat_pure ?_
    intro type names heq
    cases heq
    exact hnames'
  -- A connection declares nothing.
  · refine yields_map _ yields_true fun a _ => sat_pure ?_
    intro type names heq
    cases heq

end Declarations

section Expressions

/-- Every literal of an expression fits into a word. -/
def Expr.Bounded : Expr → Prop
  | .const v => v < UInt64.size
  | .var _ => True
  | .binary _ lhs rhs => lhs.Bounded ∧ rhs.Bounded
  | .unary _ arg => arg.Bounded
  | .query c t e => c.Bounded ∧ t.Bounded ∧ e.Bounded
  | .intCast arg _ => arg.Bounded
  | .boolCast arg => arg.Bounded

/-- Prefix operators keep the literals of their operand. -/
theorem bounded_applyPrefixes (ops : List UnOp) (e : Expr) (he : e.Bounded) :
    (applyPrefixes ops e).Bounded := by
  induction ops with
  | nil => exact he
  | cons op ops ih => exact ih

/-- Cutting a chain makes no new operands. -/
theorem bounded_cutAt (level : Nat) (links : List Link) (hlinks : ∀ l ∈ links, l.2.Bounded) :
    (∀ l ∈ (cutAt level links).1, l.2.Bounded) ∧
      ∀ x ∈ (cutAt level links).2, x.2.1.Bounded ∧ ∀ l ∈ x.2.2, l.2.Bounded := by
  induction links with
  | nil => exact ⟨fun l hl => absurd hl List.not_mem_nil, fun x hx => absurd hx List.not_mem_nil⟩
  | cons link links ih =>
      rcases link with ⟨op, e⟩
      have he : e.Bounded := hlinks (op, e) List.mem_cons_self
      rcases ih fun l hl => hlinks l (List.mem_cons_of_mem _ hl) with ⟨hfirst, hpieces⟩
      rw [cutAt]
      simp only []
      split
      -- An operator of this level starts a new piece.
      · refine ⟨fun l hl => absurd hl List.not_mem_nil, ?_⟩
        intro x hx
        rcases List.mem_cons.mp hx with rfl | hx
        · exact ⟨he, hfirst⟩
        · exact hpieces x hx
      -- An operator that binds tighter stays in the piece before it.
      · refine ⟨?_, hpieces⟩
        intro l hl
        rcases List.mem_cons.mp hl with rfl | hl
        · exact he
        · exact hfirst l hl

/-- Nesting a chain keeps the literals of its operands. -/
theorem bounded_nestLevels (left : Nat) (e : Expr) (links : List Link) (he : e.Bounded)
    (hlinks : ∀ l ∈ links, l.2.Bounded) : (nestLevels left e links).Bounded := by
  induction left generalizing e links with
  | zero => exact he
  | succ left ih =>
      rcases bounded_cutAt (levels - (left + 1)) links hlinks with ⟨hfirst, hpieces⟩
      rw [nestLevels]
      -- The pieces are nested one level down and joined from the left.
      have hfold : ∀ (pieces : List (BinOp × Expr × List Link)) (acc : Expr), acc.Bounded →
          (∀ x ∈ pieces, x.2.1.Bounded ∧ ∀ l ∈ x.2.2, l.2.Bounded) →
          (pieces.foldl (fun acc x => .binary x.1 acc (nestLevels left x.2.1 x.2.2))
            acc).Bounded := by
        intro pieces
        induction pieces with
        | nil => exact fun acc hacc _ => hacc
        | cons x pieces ihp =>
            intro acc hacc hx
            rcases hx x List.mem_cons_self with ⟨hoperand, hrest⟩
            refine ihp _ ⟨hacc, ih _ _ hoperand hrest⟩ ?_
            exact fun y hy => hx y (List.mem_cons_of_mem x hy)
      exact hfold _ _ (ih e _ he hfirst) hpieces

variable {E : Reader (Checked Expr)}

/-- A cast has the literals of its argument; the width is no literal. -/
theorem yields_castInt (hE : Yields E (Sat Expr.Bounded)) :
    Yields (castInt E) (Sat Expr.Bounded) := by
  refine yields_rule _ (yields_then fun _ => yields_then fun _ => yields_then fun _ =>
    yields_then fun _ => yields_bind hE fun arg harg => yields_then fun _ =>
      yields_then fun width => yields_then fun _ => yields_map _ yields_true fun _ _ => ?_)
  exact sat_bind harg fun _ h => sat_bind sat_true fun _ _ => sat_pure h

/-- A primary is a cast, a literal, a channel or an expression in parentheses.
    -/
theorem yields_primary (hE : Yields E (Sat Expr.Bounded)) :
    Yields (primary E) (Sat Expr.Bounded) := by
  refine yields_orElse (yields_castInt hE) (yields_orElse ?_ (yields_orElse ?_ (yields_orElse ?_
    (yields_orElse ?_ yields_fail))))
  · refine yields_rule _ (yields_then fun _ => yields_then fun _ => yields_then fun _ =>
      yields_then fun _ => yields_bind hE fun arg harg => yields_then fun _ => ?_)
    exact yields_map _ yields_true fun _ _ => sat_map _ harg fun _ h => h
  · exact yields_map _ yields_numLit fun n hn => sat_map _ hn fun _ h => h
  · refine yields_map _ yields_true fun name _ => ?_
    intro e he
    cases he
    exact trivial
  · refine yields_then fun _ => yields_then fun _ => yields_bind hE fun e he => ?_
    refine yields_then fun _ => ?_
    exact yields_map (fun _ => e) yields_true fun _ _ => he

/-- An operand is a primary behind its prefix operators. -/
theorem yields_operand (hE : Yields E (Sat Expr.Bounded)) :
    Yields (operand E) (Sat Expr.Bounded) := by
  refine yields_then fun ops => yields_then fun _ => yields_map _ (yields_primary hE) fun e he => ?_
  exact sat_map _ he fun e h => bounded_applyPrefixes ops e h

/-- A chain of operands is nested once all of it was read. -/
theorem yields_condExpr (hE : Yields E (Sat Expr.Bounded)) :
    Yields (condExpr E) (Sat Expr.Bounded) := by
  have hlink : Yields (link E) (Sat fun l => l.2.Bounded) := by
    refine yields_then fun op => yields_then fun _ => ?_
    refine yields_map _ (yields_operand hE) fun e he => ?_
    exact sat_map _ he fun _ h => h
  refine yields_rule _ (yields_bind (yields_operand hE) fun first hfirst => yields_then fun _ =>
    yields_map _ (yields_repeated hlink) fun links hlinks => ?_)
  -- A flaw in any operand is a flaw of the chain.
  refine sat_bind hfirst fun first' hfirst' => sat_bind (sat_joined hlinks) fun links' hlinks' => ?_
  exact sat_pure (bounded_nestLevels levels first' links' hfirst' hlinks')

/-- The literals of an expression that was read fit into words. -/
theorem yields_expr (fuel : Nat) : Yields (expr fuel) (Sat Expr.Bounded) := by
  induction fuel with
  | zero => exact yields_fail
  | succ fuel ih =>
      have hbranches : Yields (branches (expr fuel))
          (Sat fun b => b.1.Bounded ∧ b.2.Bounded) := by
        refine yields_then fun _ => yields_then fun _ => yields_bind ih fun t ht =>
          yields_then fun _ => yields_then fun _ => yields_then fun _ =>
            yields_map _ ih fun e he => ?_
        exact sat_bind ht fun _ ht' => sat_bind he fun _ he' => sat_pure ⟨ht', he'⟩
      -- A conditional is a condition with branches, or the condition alone.
      refine yields_rule _ (yields_delay (yields_bind (yields_condExpr ih) fun cond hcond =>
        yields_then fun _ => yields_map _ (yields_optional hbranches) fun bs hbs => ?_))
      refine sat_bind hcond fun cond' hcond' => sat_bind (sat_option hbs) fun bs' hbs' => ?_
      cases bs' with
      | none => exact sat_pure hcond'
      | some b => exact sat_pure ⟨hcond', hbs' b rfl⟩

end Expressions

section Statements

/-- A written expression that is just a channel. -/
def Expr.IsVar (e : Expr) : Prop :=
  ∃ name, e = .var name

/-- A statement that can be the result of reading. -/
def Statement.Accepted (st : Statement) : Prop :=
  st.WellFormed (fun _ => True) Expr.Bounded Expr.IsVar

/-- The depth of a buffer fits into a word, and its initial token is an
    expression. -/
theorem yields_bufferSpec (fuel : Nat) :
    Yields (bufferSpec fuel) (Sat fun b => b.depth < UInt64.size ∧ ∀ e ∈ b.init, e.Bounded) := by
  refine yields_rule _ (yields_then fun _ => yields_then fun _ => yields_bind yields_bitwidth
    fun depth hdepth => yields_then fun _ => yields_bind (yields_optional (yields_then fun _ =>
      yields_then fun _ => yields_expr fuel)) fun init hinit => yields_then fun _ =>
        yields_map _ yields_true fun _ _ => ?_)
  exact sat_bind hdepth fun _ hdepth' => sat_bind (sat_option hinit) fun _ hinit' =>
    sat_pure ⟨hdepth', hinit'⟩

/-- A function that was read is a sink or is not written like one. -/
theorem accepted_toStatement (f : Func String Expr)
    (hf : f.WellFormed (fun _ => True) Expr.Bounded) : Statement.Accepted (toStatement f) := by
  unfold toStatement
  split
  · exact trivial
  · rename_i hsink
    refine ⟨hf, ?_⟩
    rintro ⟨⟨name, hname⟩, hbuffer, houtput⟩
    -- The three facts are the pattern that was refused.
    rcases f with ⟨e, b, t⟩
    cases hname
    cases hbuffer
    cases houtput
    exact hsink name rfl

/-- A function was read from its expression, its buffer and its output. -/
theorem yields_funcStmt (fuel : Nat) : Yields (funcStmt fuel) (Sat Statement.Accepted) := by
  refine yields_rule _ (yields_bind (yields_expr fuel) fun e he => yields_then fun _ =>
    yields_then fun _ => yields_then fun _ => yields_bind (yields_optional (yields_bufferSpec fuel))
      fun buffer hbuffer => yields_then fun _ => yields_then fun output => yields_then fun _ =>
        yields_map _ yields_true fun _ _ => ?_)
  refine sat_bind he fun e' he' => sat_bind (sat_option hbuffer) fun b hb => sat_pure ?_
  -- What its parts are is known; only its form as a statement is open.
  exact accepted_toStatement _ ⟨he', fun b' h => (hb b' h).1, fun b' h => (hb b' h).2,
    fun _ _ => trivial⟩

/-- Targets that are all connected are as many as were written. -/
theorem connected_ne_nil (left : Nat) (targets : List (Option String)) (names : List String)
    (h : connected left targets = .ok names) (hne : targets ≠ []) : names ≠ [] :=
  traverse_ne_nil _ targets names h hne

/-- A selection has inputs, and a split has two outputs or more. -/
theorem accepted_selection (left : Nat) (guard : Guard) (inputs outputs : List (Option String))
    (hne : inputs ≠ []) : Sat Statement.Accepted (selection left guard inputs outputs) := by
  intro st h
  rcases except_bind_ok_iff.mp h with ⟨names, hnames, h₁⟩
  have hnonempty := connected_ne_nil left inputs names hnames hne
  have hall : ∀ c ∈ names, True := fun _ _ => trivial
  -- The kind of guard decides what the selection is.
  split at h₁
  · cases h₁
    refine ⟨trivial, trivial, fun _ _ _ _ => trivial, ?_⟩
    simp only [List.length_cons]
    omega
  · rcases except_bind_ok_iff.mp h₁ with ⟨outs, houts, h₂⟩
    split at h₂
    · cases h₂
      exact ⟨trivial, hall, trivial, hnonempty⟩
    · cases h₂
  · rcases except_bind_ok_iff.mp h₁ with ⟨outs, houts, h₂⟩
    split at h₂
    · cases h₂
      exact ⟨hall, trivial, hnonempty⟩
    · cases h₂
  · rcases except_bind_ok_iff.mp h₁ with ⟨outs, houts, h₂⟩
    split at h₂
    · cases h₂
      exact ⟨hall, trivial, trivial, hnonempty⟩
    · cases h₂

/-- A selection was read from its guard, its inputs and its outputs. -/
theorem yields_selectStmt : Yields selectStmt (Sat Statement.Accepted) := by
  -- A list with separators has an item, hence a selection has an input.
  have htargets : Yields targetList fun ts => ts ≠ [] :=
    yields_rule _ (yields_mono (yields_separated "," yields_true) fun _ h => h.1)
  refine yields_rule _ (yields_then fun start => yields_then fun _ => yields_then fun _ =>
    yields_then fun guard => yields_then fun _ => yields_then fun _ => yields_then fun _ =>
      yields_bind htargets fun inputs hinputs => yields_then fun _ => yields_then fun _ =>
        yields_then fun _ => yields_then fun outputs => yields_then fun _ =>
          yields_map _ yields_true fun _ _ => ?_)
  exact accepted_selection start.length guard inputs outputs hinputs

/-- Only functions may stand in a cluster. -/
theorem accepted_members (left : Nat) (statements : List Statement)
    (hstatements : ∀ st ∈ statements, Statement.Accepted st) :
    Sat (fun fs => Statement.Accepted (.cluster fs)) (members left statements) := by
  intro fs h
  refine forall_of_traverseList _ Statement.Accepted _ ?_ statements fs h hstatements
  intro st f hf hst
  -- Any other statement is a flaw.
  split at hf
  · cases hf
    exact hst
  · cases hf

/-- A cluster was read from its statements. -/
theorem yields_cluster (fuel : Nat) : Yields (cluster fuel) (Sat Statement.Accepted) := by
  refine yields_rule _ (yields_then fun start => yields_then fun _ => yields_then fun _ =>
    yields_then fun _ => yields_then fun _ => yields_bind (yields_repeated (yields_funcStmt fuel))
      fun statements hstatements => yields_then fun _ => yields_map _ yields_true fun _ _ => ?_)
  refine sat_bind (sat_joined hstatements) fun sts hsts => ?_
  exact sat_bind (accepted_members start.length sts hsts) fun _ h => sat_pure h

/-- The statements of a process are clusters, selections and functions. -/
theorem yields_dataflow (fuel : Nat) :
    Yields (dataflow fuel) (Sat fun sts => ∀ st ∈ sts, Statement.Accepted st) := by
  have hstatement : Yields (dflowStmt fuel) (Sat Statement.Accepted) :=
    yields_rule _ (yields_orElse (yields_cluster fuel) (yields_orElse yields_selectStmt
      (yields_orElse (yields_funcStmt fuel) yields_fail)))
  refine yields_rule _ (yields_then fun _ => yields_then fun _ => yields_then fun _ =>
    yields_then fun _ => yields_bind (yields_repeated hstatement) fun statements hstatements =>
      yields_then fun _ => yields_map _ yields_true fun _ _ => ?_)
  exact sat_joined hstatements

end Statements

section Files

/-- A process that can be the result of reading. -/
structure CompactProcess.Accepted (p : CompactProcess) : Prop where
  name : IsIdent p.name.toList
  ports : ∀ g ∈ p.ports, ∀ d ∈ g.names, d.Valid
  items : ∀ i ∈ p.items, i.Valid
  statements : ∀ st ∈ p.statements, Statement.Accepted st

/-- A process was read from its name, its ports, its items and its statements.
    -/
theorem yields_process (fuel : Nat) : Yields (process fuel) (Sat CompactProcess.Accepted) := by
  refine yields_rule _ (yields_then fun _ => yields_then fun _ => yields_bind
    (yields_word .identifier identifier? IsIdent isIdent_of_identifier?) fun name hname =>
      yields_then fun _ => yields_then fun _ => yields_then fun _ => yields_bind yields_portList
        fun ports hports => yields_then fun _ => yields_then fun _ => yields_then fun _ =>
          yields_then fun _ => yields_then fun _ => yields_bind (yields_repeated yields_bodyItem)
            fun items hitems => yields_then fun _ => yields_bind (yields_dataflow fuel)
              fun statements hstatements => yields_then fun _ =>
                yields_map _ yields_true fun _ _ => ?_)
  refine sat_bind hports fun ports' hports' => sat_bind hstatements fun sts hsts => ?_
  exact sat_bind (sat_joined hitems) fun items' hitems' => sat_pure ⟨hname, hports', hitems', hsts⟩

/-- The processes of a file that was read can be the result of reading. -/
theorem yields_file (fuel : Nat) :
    Yields (file fuel) (Sat fun ps => ∀ p ∈ ps, p.Accepted) := by
  refine yields_rule _ (yields_then fun _ => yields_bind (yields_repeated (yields_process fuel))
    fun processes hprocesses => yields_then fun _ => yields_map _ yields_true fun _ _ => ?_)
  exact sat_joined hprocesses

end Files

end Source

end DataflowCircuit
