import DataflowCircuit.Proofs.Lowering.Elements

/-!
# Traces are Determined by their Answers

Two runs over the same elements that were served the same wires, drew names from
the same supply and used the same kind of templates left the same trace, whatever
else their sessions knew. Everything that lowering decides for itself is decided
by the element: which reads are asked for, how many names are drawn, and what is
written with them.

The names are compared piece by piece. Both runs draw from the same supply, so
the first names are the same; then the supplies that are left are the same, and
the argument goes on.

## Theorems

* `Driven.unique`, `Added.unique`, `Gathered.unique`: The members of a unit.
* `Connected.unique`: The outputs of a split.
* `ElementTrace.unique`, `Traced.unique`: Elements.
-/

namespace DataflowCircuit

namespace Lowering

variable {s : Scope} {ns m m' : NameSupply} {τ τ' : Trace}

/-- Names that are drawn from one supply for the same requests are the same. -/
theorem Driven.unique {f : Func ChannelId Expr} {wire c c' : String} {width : Nat}
    (h : Driven f wire width c τ) (h' : Driven f wire width c' τ') (hg : ns.Gives τ.drawn m)
    (hg' : ns.Gives τ'.drawn m') : c = c' ∧ τ = τ' := by
  cases h with
  | declared hdepth =>
      -- Whether a channel is introduced is decided by the depth of the function, so the other
      -- run took the same case.
      cases h' with
      | declared => exact ⟨rfl, rfl⟩
      | introduced depth channel hdepth' =>
          rw [hdepth] at hdepth'
          cases hdepth'
  | introduced depth channel hdepth =>
      cases h' with
      | declared hdepth' =>
          rw [hdepth] at hdepth'
          cases hdepth'
      | introduced depth' channel' hdepth' =>
          -- Both names are the answer of the supply to the same request.
          rw [hg.1.trans hg'.1.symm]
          exact ⟨rfl, rfl⟩

/-- Adding a member to the same members gives the same members. -/
theorem Added.unique {element : String} {clustered : Bool} {position : Nat}
    {f : Func ChannelId Expr} {ms ms₁ ms₂ : Members}
    (h : Added s element clustered position f ms ms₁ τ)
    (h' : Added s element clustered position f ms ms₂ τ') (hg : ns.Gives τ.drawn m)
    (hg' : ns.Gives τ'.drawn m') : ms₁ = ms₂ ∧ τ = τ' := by
  cases h with
  | source value out hconst hout =>
      cases h' with
      | source value' out' hconst' hout' =>
          rw [hconst, Option.some.injEq] at hconst'
          rw [hout, Option.some.injEq] at hout'
          rw [hconst', hout']
          exact ⟨rfl, rfl⟩
      | member out' width result builder channel τ' hconst' =>
          rw [hconst] at hconst'
          cases hconst'
  | member out width result builder channel τ hconst hout hwidth hlower hfits hdrive =>
      cases h' with
      | source value' out' hconst' =>
          -- The expression of a source is constant, and that of a member is not.
          rw [hconst] at hconst'
          cases hconst'
      | member out' width' result' builder' channel' τ' hconst' hout' hwidth' hlower' hfits'
          hdrive' =>
          rw [hout, Option.some.injEq] at hout'
          -- The output, its width and the statements are computed from the member, so they
          -- agree.
          subst hout'
          rw [hwidth, Except.ok.injEq] at hwidth'
          subst hwidth'
          rw [hlower, EStateM.Result.ok.injEq] at hlower'
          rcases hlower' with ⟨rfl, rfl⟩
          rcases hdrive.unique hdrive' hg hg' with ⟨rfl, rfl⟩
          exact ⟨rfl, rfl⟩

/-- So does adding several. -/
theorem Gathered.unique {element : String} {clustered : Bool} {position : Nat}
    {fs : List (Func ChannelId Expr)} {ms ms₁ ms₂ : Members}
    (h : Gathered s element clustered position fs ms ms₁ τ)
    (h' : Gathered s element clustered position fs ms ms₂ τ') (hg : ns.Gives τ.drawn m)
    (hg' : ns.Gives τ'.drawn m') : ms₁ = ms₂ ∧ τ = τ' := by
  induction h generalizing ns τ' with
  | done position ms =>
      cases h'
      exact ⟨rfl, rfl⟩
  | step position f fs ms ms₁ ms₂ τ₁ τ₂ hadd hrest ih =>
      cases h' with
      | step _ _ _ _ ms₁' _ τ₁' τ₂' hadd' hrest' =>
          rcases NameSupply.gives_append.mp hg with ⟨mid, hfirst, hlast⟩
          rcases NameSupply.gives_append.mp hg' with ⟨mid', hfirst', hlast'⟩
          rcases hadd.unique hadd' hfirst hfirst' with ⟨rfl, rfl⟩
          -- The first member took the same names in both runs, so the supplies it left agree.
          rw [hfirst.unique hfirst'] at hlast
          rcases ih hrest' hlast hlast' with ⟨rfl, rfl⟩
          exact ⟨rfl, rfl⟩

/-- The outputs of a split are connected to the same wires if their names come
    from one supply. -/
theorem Connected.unique {observed : ChannelId → Bool} {outputs : List (Option ChannelId)}
    {r r' : SplitOutputs} (h : Connected s observed outputs r)
    (h' : Connected s observed outputs r')
    (hg : ns.Gives (r.sunk.map fun wire => (.numbered "sink", wire)) m)
    (hg' : ns.Gives (r'.sunk.map fun wire => (.numbered "sink", wire)) m') : r = r' := by
  induction h generalizing ns r' with
  | nil =>
      cases h'
      rfl
  | observed out outs id r hout hrest ih =>
      cases h' with
      | observed _ _ id' r' hout' hrest' =>
          rw [hout, Option.some.injEq] at hout'
          rw [hout', ih hrest' hg hg']
      | sunk _ _ wire r' hout' hrest' =>
          rw [hout] at hout'
          cases hout'
  | sunk out outs wire r hout hrest ih =>
      cases h' with
      | observed _ _ id' r' hout' hrest' =>
          rw [hout] at hout'
          cases hout'
      | sunk _ _ wire' r' hout' hrest' =>
          -- The first name is the answer to the first request, and the rest are answered by
          -- what is left.
          rw [hg.1.trans hg'.1.symm, ih hrest' hg.2 hg'.2]

variable {observed : ChannelId → Bool} {pipeline : Bool}

/-- What an element leaves is determined by the answers that it got. -/
theorem ElementTrace.unique {el : Element ChannelId Expr} (h : ElementTrace s observed el τ)
    (h' : ElementTrace s observed el τ') (hk : ∀ b ∈ τ.kinds, b = pipeline)
    (hk' : ∀ b ∈ τ'.kinds, b = pipeline) (hserved : τ.served = τ'.served)
    (hg : ns.Gives τ.drawn m) (hg' : ns.Gives τ'.drawn m') : τ = τ' := by
  cases h with
  | split guard input outputs kind inputWire guardWire r houts =>
      -- An element has one shape, so every other pair of cases is impossible.
      cases h' with
      | split _ _ _ kind' inputWire' guardWire' r' houts' =>
          have hkind : kind = kind' :=
            (hk kind List.mem_cons_self).trans (hk' kind' List.mem_cons_self).symm
          cases hserved
          rw [hkind, houts.unique houts' hg hg']
      | join _ _ _ _ _ hjoin => cases hjoin
      | members _ _ _ _ _ _ hmembers => cases hmembers
  | join el kind c outs served hjoin hreads =>
      cases h' with
      | split => cases hjoin
      | join _ kind' c' outs' served' hjoin' hreads' =>
          have hkind : kind = kind' :=
            (hk kind List.mem_cons_self).trans (hk' kind' List.mem_cons_self).symm
          cases hserved
          subst hkind
          rw [hjoin, Option.some.injEq, Prod.mk.injEq] at hjoin'
          rw [hjoin'.1, hjoin'.2]
      | sink => cases hjoin
      | members _ clustered funcs served ms τ hmembers =>
          -- No element both joins channels and has members.
          cases el <;> cases hjoin <;> cases hmembers
  | sink input wire =>
      cases h' with
      | join _ _ _ _ _ hjoin => cases hjoin
      | sink _ wire' =>
          cases hserved
          rfl
      | members _ _ _ _ _ _ hmembers => cases hmembers
  | members el clustered funcs served ms τ hmembers hreads hgather =>
      cases h' with
      | split => cases hmembers
      | join _ _ _ _ _ hjoin => cases el <;> cases hjoin <;> cases hmembers
      | sink => cases hmembers
      | members _ clustered' funcs' served' ms' τ' hmembers' hreads' hgather' =>
          cases hserved
          rw [hmembers, Option.some.injEq, Prod.mk.injEq] at hmembers'
          rcases hmembers' with ⟨rfl, rfl⟩
          rcases hgather.unique hgather' hg hg' with ⟨rfl, rfl⟩
          rfl

/-- So is what elements leave one after another. -/
theorem Traced.unique {els : List (Element ChannelId Expr)} (h : Traced s observed els τ)
    (h' : Traced s observed els τ') (hk : ∀ b ∈ τ.kinds, b = pipeline)
    (hk' : ∀ b ∈ τ'.kinds, b = pipeline) (hserved : τ.served = τ'.served)
    (hg : ns.Gives τ.drawn m) (hg' : ns.Gives τ'.drawn m') : τ = τ' := by
  induction h generalizing ns τ' with
  | nil =>
      cases h'
      rfl
  | cons el els τ₁ τ₂ hel hrest ih =>
      cases h' with
      | cons _ _ τ₁' τ₂' hel' hrest' =>
          rcases NameSupply.gives_append.mp hg with ⟨mid, hfirst, hlast⟩
          rcases NameSupply.gives_append.mp hg' with ⟨mid', hfirst', hlast'⟩
          rcases List.forall_mem_append.mp hk with ⟨hk₁, hk₂⟩
          rcases List.forall_mem_append.mp hk' with ⟨hk₁', hk₂'⟩
          -- Both elements took as many wires as the element has reads.
          have hlen : τ₁.served.length = τ₁'.served.length := by
            rw [← List.length_map Prod.fst, hel.served, ← hel'.served, List.length_map]
          rcases List.append_inj hserved hlen with ⟨hserved₁, hserved₂⟩
          -- Now the first elements are compared, and they leave the same supply to the others.
          have hfst := hel.unique hel' hk₁ hk₁' hserved₁ hfirst hfirst'
          subst hfst
          rw [hfirst.unique hfirst'] at hlast
          rw [ih hrest' hk₂ hk₂' hserved₂ hlast hlast']

end Lowering

end DataflowCircuit
