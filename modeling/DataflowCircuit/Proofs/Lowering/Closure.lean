import DataflowCircuit.Proofs.Lowering.Elements

/-!
# Properties of All Steps

Some properties of lowering do not depend on what is lowered. That a step keeps
an entry of the cost table, or that it can be taken again, is true of every
element because it is true of the few operations that elements are made of, and
because it carries over to sequences. The walk over elements says so of every
such property, so whoever has one proves it of the operations and need not follow
the elements again.

`Carried` leaves the naming and the pricing of units out, and asks that the
property holds of writing a unit as a whole. A property that does not look at
call sites holds of these two operations as well. Such a property is `Closed`,
and there is nothing left to show of units.

The rule for sequences hands on what is known of the result of the first part.
It is needed once. A unit is asked for with the trees of its results, and that
these are the trees of its statements is known only from how its members were
gathered.

## Main definitions

* `Lowering.Closed`: A property of all operations.

## Theorems

* `Carried.lowerCopies`, `Carried.lowerElements`: The two parts of lowering a
  process.
* `Closed.carriesUnits`, `Closed.lowerElements`: A closed property holds of
  writing units, and of lowering elements.
-/

namespace DataflowCircuit

namespace Lowering

/-- A property of steps that carries over to sequences and holds of all operations
    that lowering is made of. -/
structure Closed (Q : (α : Type) → Step α → Prop) : Prop extends Carried Q where
  disambiguate : ∀ name body, Q String (onSession (Session.disambiguate name body))
  unit : ∀ fu : FunctionalUnit, fu.Spelled →
    Q (Option Cost) (onSession (Session.unitCost fu fu.graph))

namespace Carried

variable {Q : (α : Type) → Step α → Prop} (h : Carried Q)

include h

/-- The costs of buffers are looked up one after another. -/
theorem bufferCosts (bs : List PendingBuffer) : Q _ (bufferCosts bs) := by
  induction bs with
  | nil => exact h.pure []
  | cons b bs ih => exact h.seq (h.require _) fun _ => h.seq ih fun _ => h.pure _

/-- Buffers are written one after another. -/
theorem emitBuffers (bs : List (PendingBuffer × Cost)) : Q _ (emitBuffers bs) := by
  induction bs with
  | nil => exact h.pure ()
  | cons pair bs ih => exact h.seq (h.emit _ _ _ _) fun _ => ih

/-- A property that is carried along holds of lowering elements, if it holds of
    writing units. -/
theorem lowerElements (hunits : CarriesUnits Q) (sub : Subject)
    (els : List (Element ChannelId Expr)) : Q _ (lowerElements sub els) :=
  (@walk_lowerElements [] sub els).carried Q h hunits

/-- It holds of writing copies as well. -/
theorem lowerCopies (sups : List Supply) : Q _ (lowerCopies sups) := by
  induction sups with
  | nil => exact h.pure ()
  | cons sup sups ih =>
      refine h.seq ?_ fun _ => ih
      -- A copy is its cost, its count, its registration and its instance.
      refine h.seq (h.require _) fun cost => h.seq (h.recordCopy _ _) fun _ => ?_
      exact h.seq (h.register _ _ _ _) fun _ => h.addCopy _

end Carried

namespace Closed

variable {Q : (α : Type) → Step α → Prop} (h : Closed Q)

include h

/-- The unit of members is priced under the name of its template. -/
theorem carriesUnits : CarriesUnits Q := by
  intro sub sources ms el hgraph hunit
  have hspelled := spelled_of_unit? sub.scope el _ hunit
  refine h.seq (h.bufferCosts ms.buffers) fun costs => ?_
  refine h.bind (fun name => ({ ms.unit with name } : FunctionalUnit).Spelled)
    (h.disambiguate _ _) ?_ fun name hname => ?_
  · intro l name l' hrun
    rcases onSession_ok_iff.mp hrun with ⟨s, hs, _⟩
    rcases disambiguate_ok _ _ name _ s hs with ⟨_, _, hanswer⟩
    -- Renaming the template keeps a unit spelled, under the table that answered.
    have hunder := hspelled.under s.cache.bodies
    have hname : name = Bodies.templateName s.cache.bodies ms.unit.name
        (Text.fingerprint ms.unit.body) := hanswer _ (Bodies.Keeps.refl _)
    rw [FunctionalUnit.under, ← hname] at hunder
    exact hunder
  · -- Neither the spelling nor the graph depends on the buffers.
    have hpriced : ∀ buffers, Q _ (onSession (Session.unitCost { ms.unit with name, buffers }
        ms.builder.graph)) := by
      intro buffers
      rw [hgraph]
      exact h.unit { ms.unit with name, buffers } ⟨hname.stated, hname.name⟩
    refine h.seq (hpriced _) fun cost => h.seq (h.lift _) fun inputs => ?_
    exact h.seq (h.emit _ _ _ _) fun _ => h.emitBuffers _

/-- A closed property holds of lowering elements. -/
theorem lowerElements (sub : Subject) (els : List (Element ChannelId Expr)) :
    Q _ (lowerElements sub els) :=
  h.toCarried.lowerElements h.carriesUnits sub els

end Closed

end Lowering

end DataflowCircuit
