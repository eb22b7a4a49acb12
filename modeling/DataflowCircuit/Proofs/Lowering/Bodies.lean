import DataflowCircuit.Lowering.Cache

/-!
# The Table of Bodies

A run keeps one table that says which body each unit name stands for. The
first body under a name gets the name, and every other body gets the name with
its fingerprint added.

Stated step by step this depends on everything the run did before. Stated at
the end it does not: an entry of the table is never changed, so whether a body
got its plain name can be read off any later table. `templateName` is that
reading, and `disambiguate_name` says that it is what the step answered. A run
is therefore understood by its last table, and two runs give a body the same
name exactly if their last tables agree on who came first.

## Main definitions

* `Bodies`: The table.
* `Bodies.Keeps`: A later table of the same run.
* `Bodies.templateName`: The template name of a body, read off a table.
* `Bodies.note`: The table after a body was named.

## Theorems

* `note_keeps`: Naming a body changes no entry.
* `disambiguate_bodies`: The table after a step is `note`.
* `disambiguate_name`: The answer of a step is `templateName` of every later
  table.
-/

namespace DataflowCircuit

/-- The fingerprint of the body that each name stands for. -/
abbrev Bodies := List (String × UInt64)

namespace Bodies

/-- Every entry of `before` is an entry of `after`. -/
def Keeps (before after : Bodies) : Prop :=
  ∀ name fp, before.lookup name = some fp → after.lookup name = some fp

/-- A table keeps its own entries. -/
theorem Keeps.refl (T : Bodies) : Keeps T T :=
  fun _ _ h => h

/-- What a later table keeps, a still later one keeps. -/
theorem Keeps.trans {T U V : Bodies} (h₁ : Keeps T U) (h₂ : Keeps U V) : Keeps T V :=
  fun name fp h => h₂ name fp (h₁ name fp h)

/-- The template name of a body with a fingerprint: the plain name, if the
    table says that the name stands for it. -/
def templateName (T : Bodies) (name : String) (fp : UInt64) : String :=
  if T.lookup name = some fp then name else Cache.hashedName name fp

/-- Add an entry unless the name has one. -/
def add (T : Bodies) (name : String) (fp : UInt64) : Bodies :=
  match T.lookup name with
  | some _ => T
  | none => (name, fp) :: T

/-- The table after a body was named. -/
def note (T : Bodies) (name : String) (fp : UInt64) : Bodies :=
  match T.lookup name with
  | none => T.add name fp
  | some before => if before = fp then T else T.add (Cache.hashedName name fp) fp

/-- Looking up a name after an entry was added. -/
theorem lookup_add (T : Bodies) (name name' : String) (fp : UInt64) :
    (T.add name fp).lookup name'
      = if name' = name then some ((T.lookup name).getD fp) else T.lookup name' := by
  unfold add
  -- An entry that is there already wins over the one that is added.
  cases hT : T.lookup name with
  | some before =>
      by_cases hname : name' = name
      · rw [if_pos hname, hname, hT, Option.getD_some]
      · rw [if_neg hname]
  | none =>
      by_cases hname : name' = name
      · rw [if_pos hname, hname, List.lookup_cons_self, Option.getD_none]
      · have hbeq : (name' == name) = false := by simpa using hname
        rw [if_neg hname, List.lookup_cons, hbeq]

/-- Adding an entry changes none. -/
theorem add_keeps (T : Bodies) (name : String) (fp : UInt64) : Keeps T (T.add name fp) := by
  intro name' fp' h
  rw [lookup_add]
  -- Only the lookup of the added name could have changed, and it had an entry.
  by_cases hname : name' = name
  · rw [if_pos hname, ← hname, h, Option.getD_some]
  · rw [if_neg hname]
    exact h

/-- Naming a body changes no entry. -/
theorem note_keeps (T : Bodies) (name : String) (fp : UInt64) : Keeps T (T.note name fp) := by
  unfold note
  split
  · exact add_keeps T name fp
  · split
    · exact Keeps.refl T
    · exact add_keeps T _ fp

end Bodies

namespace Cache

/-- A body is added to the table of the cache. -/
theorem addBody_bodies (c : Cache) (name : String) (fp : UInt64) :
    (c.addBody name fp).bodies = Bodies.add c.bodies name fp := by
  unfold addBody Bodies.add
  cases c.bodies.lookup name with
  | none => rfl
  | some before => rfl

/-- The table after a step that named a body. -/
theorem disambiguate_bodies (c : Cache) (name body : String) :
    (c.disambiguate name body).2.1.bodies
      = Bodies.note c.bodies name (Text.fingerprint body) := by
  unfold disambiguate Bodies.note
  cases hlook : c.bodies.lookup name with
  | none => exact addBody_bodies c name _
  | some before =>
      by_cases hfp : before = Text.fingerprint body
      · simp only [if_pos hfp]
      · simp only [if_neg hfp]
        exact addBody_bodies c _ _

/-- The name that a step answered is read off every later table. -/
theorem disambiguate_name (c : Cache) (name body : String) (T : Bodies)
    (hT : Bodies.Keeps (c.disambiguate name body).2.1.bodies T) :
    (c.disambiguate name body).1 = Bodies.templateName T name (Text.fingerprint body) := by
  rw [disambiguate_bodies] at hT
  unfold disambiguate Bodies.templateName
  cases hlook : c.bodies.lookup name with
  | none =>
      -- The name was free, so from now on it stands for this body.
      have hentry : (Bodies.note c.bodies name (Text.fingerprint body)).lookup name
          = some (Text.fingerprint body) := by
        unfold Bodies.note
        rw [hlook, Bodies.lookup_add, if_pos rfl, hlook, Option.getD_none]
      rw [if_pos (hT name _ hentry)]
  | some before =>
      -- The name was taken, and later tables keep who took it.
      have hentry : T.lookup name = some before :=
        hT name before (Bodies.note_keeps c.bodies name _ name before hlook)
      rw [hentry]
      by_cases hfp : before = Text.fingerprint body
      · simp only [hfp, if_true]
      · have hne : ¬ some before = some (Text.fingerprint body) := by
          intro hc
          exact hfp (Option.some.inj hc)
        simp only [if_neg hfp, if_neg hne]

end Cache

end DataflowCircuit
