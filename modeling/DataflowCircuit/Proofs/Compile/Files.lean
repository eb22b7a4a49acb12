import DataflowCircuit.Compile.Output
import DataflowCircuit.Proofs.Basic.Steps
import Mathlib.Data.List.Infix

/-!
# Paths and Places

Reading and writing start with a path, but what they depend on is the place
that the path leads to. This file separates the two: a path leads to a place,
the place has contents, and a file operation succeeds or fails by these alone.

The directories are what makes the separation hold over time. A file can only
be created where every directory on the way exists, and creating it makes
nothing else a directory. So the tree of directories is the same before and
after any operation, and a path that leads somewhere leads there for the rest
of the run. What is left to follow through a run are the contents of places.

Faults are not covered by this. A path through a file that was just created
fails for another reason than before, so two file systems with one tree agree
on which paths lead to a file but not on why the others do not.

## Main definitions

* `Files.SameTree`: Two file systems have the same directories.
* `Files.Reached`: A place that a path can end at.
* `Files.place?`: The place of the file that a path leads to.
* `Files.Alike`: Two file systems that no operation tells apart.

## Theorems

* `Files.reached_of_place?`: Every directory on the way to a file exists.
* `Files.sameTree_set`: Setting the contents of such a place changes no directory.
* `Files.SameTree.place?_eq`: Paths lead to the same places.
* `Files.read_ok_iff`, `Files.write_ok_iff`, `Files.append_ok_iff`,
  `Files.extend_ok_iff`: The file operations by places.
* `Files.contains_eq_false_iff`: When nothing is at the end of a path.
-/

namespace DataflowCircuit

namespace Files

section Contents

/-- What was put at a place is found there. -/
theorem lookup_put_place (p q : Place) (c : Contents) (es : List (Place × Contents)) :
    (put p c es).lookup q = if q = p then some c else es.lookup q := by
  induction es with
  | nil =>
      by_cases hq : q = p
      · simp [put, hq]
      · have hb : (q == p) = false := by simp [hq]
        simp [put, List.lookup_cons, hb, hq]
  | cons entry rest ih =>
      rcases entry with ⟨q₀, d⟩
      unfold put
      -- The entry at the place is replaced where it stands.
      by_cases hp : q₀ = p
      · rw [if_pos hp, List.lookup_cons, List.lookup_cons]
        by_cases hq : q = p
        · simp [hq, hp]
        · have hb : (q == q₀) = false := by simp [hp, hq]
          simp [hb, hq]
      · rw [if_neg hp, List.lookup_cons, List.lookup_cons, ih]
        by_cases hq : q = q₀
        · subst hq
          simp [hp]
        · have hb : (q == q₀) = false := by simp [hq]
          simp [hb]

/-- Putting twice is putting once. -/
theorem put_put (p : Place) (c d : Contents) (es : List (Place × Contents)) :
    put p d (put p c es) = put p d es := by
  induction es with
  | nil => simp [put]
  | cons entry rest ih =>
      rcases entry with ⟨q, e⟩
      by_cases hq : q = p
      · simp [put, hq]
      · simp [put, hq, ih]

/-- Setting contents twice is setting them once. -/
theorem set_set (fs : Files) (p : Place) (c d : Contents) : (fs.set p c).set p d = fs.set p d := by
  unfold set
  rw [put_put]

/-- Setting contents answers for one place and no other. -/
theorem lookup_set (fs : Files) (p q : Place) (c : Contents) :
    (fs.set p c).entries.lookup q = if q = p then some c else fs.entries.lookup q :=
  lookup_put_place p q c fs.entries

/-- The places of files after one was set. -/
theorem any_put (f : Place → Bool) (p : Place) (c : Contents) (es : List (Place × Contents)) :
    ((put p c es).any fun e => f e.1) = ((es.any fun e => f e.1) || f p) := by
  induction es with
  | nil => simp [put]
  | cons entry rest ih =>
      rcases entry with ⟨q, d⟩
      unfold put
      by_cases hq : q = p
      · subst hq
        simp [Bool.or_right_comm]
      · rw [if_neg hq, List.any_cons, List.any_cons, ih, Bool.or_assoc]

/-- A file that is set makes directories of the places above it. -/
theorem isDirectory_set (fs : Files) (p q : Place) (c : Contents) :
    (fs.set p c).isDirectory q
      = (fs.isDirectory q || (q.isPrefixOf p && decide (q.length < p.length))) := by
  unfold isDirectory set
  rw [any_put (fun e => q.isPrefixOf e && decide (q.length < e.length)) p c fs.entries]
  simp only [Bool.or_assoc]

end Contents

section Trees

/-- Two file systems have the same directories. -/
def SameTree (fs fs' : Files) : Prop :=
  ∀ p, fs'.isDirectory p = fs.isDirectory p

/-- A tree is the same as itself. -/
theorem SameTree.refl (fs : Files) : SameTree fs fs :=
  fun _ => rfl

/-- Being the same tree goes both ways. -/
theorem SameTree.symm {fs fs' : Files} (h : SameTree fs fs') : SameTree fs' fs :=
  fun p => (h p).symm

/-- Trees that are the same as a third one are the same. -/
theorem SameTree.trans {fs fs' fs'' : Files} (h₁ : SameTree fs fs') (h₂ : SameTree fs' fs'') :
    SameTree fs fs'' :=
  fun p => (h₂ p).trans (h₁ p)

/-- A place that a path can end at: every place above it is a directory, and the
    steps up to unknown directories come first. -/
structure Reached (fs : Files) (p : Place) : Prop where
  above : ∀ q, q <+: p → q ≠ p → fs.isDirectory q = true
  climbs : ∀ q, q <+: p → q.getLast? = some ".." → ∀ name ∈ q, name = ".."

variable {fs fs' : Files} {p q : Place}

/-- Going up leads to directories. -/
theorem isDirectory_of_climbs (fs : Files) (p : Place) (h : ∀ name ∈ p, name = "..") :
    fs.isDirectory p = true := by
  have hall : p.all (· = "..") = true := by
    rw [List.all_eq_true]
    intro name hname
    exact decide_eq_true (h name hname)
  unfold isDirectory
  rw [hall, Bool.true_or, Bool.true_or, Bool.true_or]

/-- Going up any number of times ends somewhere. -/
theorem reached_of_climbs (fs : Files) (p : Place) (h : ∀ name ∈ p, name = "..") :
    fs.Reached p := by
  have hsub : ∀ q : Place, q <+: p → ∀ name ∈ q, name = ".." := fun q hq name hname =>
    h name (hq.subset hname)
  exact ⟨fun q hq _ => isDirectory_of_climbs fs q (hsub q hq), fun q hq _ => hsub q hq⟩

/-- A path starts at a directory that is there. -/
theorem reached_start (fs : Files) (path : String) :
    fs.Reached (Place.start path) ∧ fs.isDirectory (Place.start path) = true := by
  unfold Place.start
  split
  -- An absolute path starts at the root, above which there is nothing.
  · refine ⟨⟨fun q hq hne => ?_, fun q hq hlast => ?_⟩, ?_⟩
    · rcases List.prefix_concat_iff.mp (show q <+: [] ++ [""] from hq) with rfl | hnil
      · exact absurd rfl hne
      · rw [List.prefix_nil.mp hnil]
        exact isDirectory_of_climbs fs [] (fun name hname => absurd hname List.not_mem_nil)
    · rcases List.prefix_concat_iff.mp (show q <+: [] ++ [""] from hq) with rfl | hnil
      · simp at hlast
      · rw [List.prefix_nil.mp hnil]
        exact fun name hname => absurd hname List.not_mem_nil
    · unfold isDirectory
      simp
  · exact ⟨reached_of_climbs fs [] (fun name hname => absurd hname List.not_mem_nil),
      isDirectory_of_climbs fs [] (fun name hname => absurd hname List.not_mem_nil)⟩

/-- What is above a reached directory is a reached directory. -/
theorem reached_parent (h : fs.Reached p) (hp : fs.isDirectory p = true) :
    fs.Reached p.parent ∧ fs.isDirectory p.parent = true := by
  unfold Place.parent
  split
  · exact ⟨h, hp⟩
  · rename_i hlast
    -- A directory above which nothing is known is left by one step more.
    have hclimbs : ∀ name ∈ p ++ [".."], name = ".." := by
      intro name hname
      rcases List.mem_append.mp hname with hname | hname
      · exact h.climbs p (List.prefix_refl p) hlast name hname
      · exact List.mem_singleton.mp hname
    exact ⟨reached_of_climbs fs _ hclimbs, isDirectory_of_climbs fs _ hclimbs⟩
  · rename_i name _ _ hlast
    -- A place with a name at its end is a proper place below the one it is in.
    have hcut := List.dropLast_append_getLast? name (Option.mem_def.mpr hlast)
    have hne : p.dropLast ≠ p := by
      intro heq
      rw [heq] at hcut
      simp at hcut
    have hpre : p.dropLast <+: p := List.dropLast_prefix p
    refine ⟨⟨fun q hq hqne => ?_, fun q hq => h.climbs q (hq.trans hpre)⟩, h.above _ hpre hne⟩
    refine h.above q (hq.trans hpre) ?_
    rintro rfl
    exact hne (List.IsPrefix.eq_of_length_le hpre (hq.length_le))
  · exact ⟨reached_of_climbs fs _ (by simp), isDirectory_of_climbs fs _ (by simp)⟩

/-- A name below a reached directory is reached. -/
theorem reached_below (h : fs.Reached p) (hp : fs.isDirectory p = true) (name : String)
    (hname : name ≠ "..") : fs.Reached (p ++ [name]) := by
  refine ⟨fun q hq hne => ?_, fun q hq hlast => ?_⟩
  · rcases List.prefix_concat_iff.mp hq with rfl | hq
    · exact absurd rfl hne
    -- What is above the name is the directory or above it.
    · by_cases hqp : q = p
      · rw [hqp]
        exact hp
      · exact h.above q hq hqp
  · rcases List.prefix_concat_iff.mp hq with rfl | hq
    · rw [List.getLast?_concat, Option.some.injEq] at hlast
      exact absurd hlast hname
    · exact h.climbs q hq hlast

/-- Directories are entered, and nothing else is. -/
theorem enter_ok_iff (fs : Files) (p : Place) :
    fs.enter p = .ok () ↔ fs.isDirectory p = true := by
  unfold enter
  split
  · rename_i h
    exact ⟨fun _ => h, fun _ => rfl⟩
  · rename_i h
    refine ⟨fun hok => ?_, fun hdir => absurd hdir h⟩
    -- Whatever stands in the way, entering it fails.
    split at hok <;> cases hok

/-- A walk from a reached directory ends at a reached place. -/
theorem walk_reached (segments : List String) (r : Place × Bool) (h : fs.Reached p)
    (hp : fs.isDirectory p = true) (hwalk : fs.walk p segments = .ok r) : fs.Reached r.1 := by
  induction segments generalizing p with
  | nil =>
      cases hwalk
      exact h
  | cons segment segments ih =>
      unfold walk at hwalk
      by_cases hspecial : (segment = "" || segment = "." || segment = "..") = true
      · rw [if_pos hspecial] at hwalk
        -- A step that stays or goes up ends at a directory that is there.
        have hfollow : fs.Reached (p.follow segment) ∧
            fs.isDirectory (p.follow segment) = true := by
          unfold Place.follow
          split
          · exact ⟨h, hp⟩
          · split
            · exact reached_parent h hp
            · rename_i h₁ h₂
              simp_all
        exact ih hfollow.1 hfollow.2 hwalk
      · rw [if_neg hspecial] at hwalk
        simp only [Bool.or_eq_true, decide_eq_true_eq, not_or] at hspecial
        have hfollow : p.follow segment = p ++ [segment] := by
          unfold Place.follow
          rw [if_neg (by simp [hspecial]), if_neg hspecial.2]
        have hbelow := reached_below h hp segment hspecial.2
        rw [hfollow] at hwalk
        -- A name is where the walk ends or a directory that it enters.
        split at hwalk
        · cases hwalk
          exact hbelow
        · rcases except_bind_ok_iff.mp hwalk with ⟨_, henter, hwalk⟩
          exact ih hbelow ((enter_ok_iff fs _).mp henter) hwalk

/-- A path ends at a reached place. -/
theorem reached_of_locate (path : String) (slash : Bool) (h : fs.locate path = .ok (p, slash)) :
    fs.Reached p := by
  unfold locate at h
  split at h
  · cases h
  · split at h
    · cases h
    -- A path with some characters and without a null character is walked from its start.
    · rcases reached_start fs path with ⟨hstart, hdir⟩
      exact walk_reached (Place.segments path) (p, slash) hstart hdir h

/-- In the same tree, segments lead to the same place. -/
theorem SameTree.walk_iff (h : SameTree fs fs') (p : Place) (segments : List String)
    (r : Place × Bool) : fs'.walk p segments = .ok r ↔ fs.walk p segments = .ok r := by
  induction segments generalizing p with
  | nil => exact Iff.rfl
  | cons segment segments ih =>
      unfold walk
      split
      · exact ih _
      · split
        · exact Iff.rfl
        · rw [except_bind_ok_iff, except_bind_ok_iff]
          -- Whether a name is entered depends on the directories alone.
          refine exists_congr fun u => and_congr ?_ (ih _)
          rw [enter_ok_iff, enter_ok_iff, h]

/-- In the same tree, paths lead to the same place. -/
theorem SameTree.locate_iff (h : SameTree fs fs') (path : String) (r : Place × Bool) :
    fs'.locate path = .ok r ↔ fs.locate path = .ok r := by
  unfold locate
  split
  · exact Iff.rfl
  · split
    · exact Iff.rfl
    · exact h.walk_iff _ _ _

end Trees

section Operations

/-- The place of the file that a path leads to. The file need not exist. -/
def place? (fs : Files) (path : String) : Option Place :=
  (fs.target path).toOption

variable {fs fs' : Files} {p q : Place} {path : String}

/-- A path leads to a file if it ends at no directory and with no slash. -/
theorem target_ok_iff (fs : Files) (path : String) (p : Place) :
    fs.target path = .ok p ↔ fs.locate path = .ok (p, false) ∧ fs.isDirectory p = false := by
  unfold target
  rw [except_bind_ok_iff]
  constructor
  · rintro ⟨⟨q, slash⟩, hlocate, h⟩
    cases slash with
    | true => cases h
    | false =>
        cases hdir : fs.isDirectory q with
        | true => simp [hdir] at h
        | false =>
            simp only [hdir, Bool.or_self, Bool.false_eq_true, if_false] at h
            cases h
            exact ⟨hlocate, hdir⟩
  · rintro ⟨hlocate, hdir⟩
    exact ⟨(p, false), hlocate, by simp [hdir]⟩

/-- The place of a file is where its path leads. -/
theorem target_eq_of_place? (h : fs.place? path = some p) : fs.target path = .ok p := by
  unfold place? at h
  cases htarget : fs.target path with
  | error fault =>
      rw [htarget] at h
      cases h
  | ok q =>
      rw [htarget] at h
      cases h
      rfl

/-- When a path leads to a place. -/
theorem place?_eq_some_iff (fs : Files) (path : String) (p : Place) :
    fs.place? path = some p ↔ fs.locate path = .ok (p, false) ∧ fs.isDirectory p = false := by
  rw [← target_ok_iff]
  refine ⟨target_eq_of_place?, fun h => ?_⟩
  unfold place?
  rw [h]
  rfl

/-- Every directory on the way to a file exists. -/
theorem reached_of_place? (h : fs.place? path = some p) : fs.Reached p :=
  reached_of_locate path false ((place?_eq_some_iff fs path p).mp h).1

/-- Setting the contents of a reached place changes no directory. -/
theorem sameTree_set (h : fs.Reached p) (c : Contents) : SameTree fs (fs.set p c) := by
  intro q
  rw [isDirectory_set]
  -- What is above a reached place was a directory before.
  by_cases hq : (q.isPrefixOf p && decide (q.length < p.length)) = true
  · simp only [Bool.and_eq_true, List.isPrefixOf_iff_prefix, decide_eq_true_eq] at hq
    have hne : q ≠ p := by
      rintro rfl
      omega
    rw [h.above q hq.1 hne, Bool.true_or]
  · rw [Bool.eq_false_iff.mpr hq, Bool.or_false]

/-- In the same tree, paths lead to the same files. -/
theorem SameTree.place?_eq (h : SameTree fs fs') (path : String) :
    fs'.place? path = fs.place? path := by
  refine Option.ext fun p => ?_
  rw [place?_eq_some_iff, place?_eq_some_iff, h.locate_iff, h p]

/-- Setting the contents of a file leaves all paths where they lead. -/
theorem place?_set (h : fs.place? path = some p) (c : Contents) (other : String) :
    (fs.set p c).place? other = fs.place? other :=
  (sameTree_set (reached_of_place? h) c).place?_eq other

/-- A file is found where its path leads, if it is there. -/
theorem find_ok_iff (fs : Files) (path : String) (p : Place) (c : Contents) :
    fs.find path = .ok (p, c) ↔ fs.place? path = some p ∧ fs.entries.lookup p = some c := by
  rw [place?_eq_some_iff]
  unfold find
  rw [except_bind_ok_iff]
  constructor
  · rintro ⟨⟨q, slash⟩, hlocate, h⟩
    cases hdir : fs.isDirectory q with
    | true => simp [hdir] at h
    | false =>
        cases hlook : fs.entries.lookup q with
        | none => simp [hdir, hlook] at h
        | some d =>
            -- A slash at the end asks for a directory, which a file is not.
            cases slash with
            | true => simp [hdir, hlook] at h
            | false =>
                simp only [hdir, hlook, Bool.false_eq_true, if_false] at h
                cases h
                exact ⟨⟨hlocate, hdir⟩, hlook⟩
  · rintro ⟨⟨hlocate, hdir⟩, hlook⟩
    exact ⟨(p, false), hlocate, by simp [hdir, hlook]⟩

/-- A walk does not ask what is at its end. -/
theorem walk_ne_isDirectory (fs : Files) (p : Place) (segments : List String) :
    fs.walk p segments ≠ .error .isDirectory := by
  induction segments generalizing p with
  | nil => exact fun h => by cases h
  | cons segment segments ih =>
      intro h
      unfold walk at h
      split at h
      · exact ih _ h
      · split at h
        · cases h
        · cases henter : fs.enter (p.follow segment) with
          | ok u =>
              simp only [henter, bind, Except.bind] at h
              exact ih _ h
          | error fault =>
              simp only [henter, bind, Except.bind] at h
              cases h
              -- A name is refused because it is missing or a file.
              unfold enter at henter
              split at henter
              · cases henter
              · split at henter <;> cases henter

/-- Locating does not ask either. -/
theorem locate_ne_isDirectory (fs : Files) (path : String) :
    fs.locate path ≠ .error .isDirectory := by
  unfold locate
  split
  · exact fun h => by cases h
  · split
    · exact fun h => by cases h
    · exact walk_ne_isDirectory fs _ _

/-- A file is read from its place. -/
theorem read_ok_iff (fs : Files) (path : String) (c : Contents) :
    fs.read path = .ok c ↔ ∃ p, fs.place? path = some p ∧ fs.entries.lookup p = some c := by
  unfold read
  constructor
  · intro h
    cases hfind : fs.find path with
    | error fault =>
        rw [hfind] at h
        cases h
    | ok pair =>
        rw [hfind] at h
        cases h
        exact ⟨pair.1, (find_ok_iff fs path pair.1 pair.2).mp hfind⟩
  · rintro ⟨p, h⟩
    rw [(find_ok_iff fs path p c).mpr h]
    rfl

/-- Contents that were set are read. -/
theorem read_set (h : fs.place? path = some p) (c : Contents) : (fs.set p c).read path = .ok c := by
  rw [read_ok_iff]
  exact ⟨p, (place?_set h c path).trans h, by rw [lookup_set, if_pos rfl]⟩

/-- Nothing is at the end of a path that leads to no directory and to no file
    with contents. -/
theorem contains_eq_false_iff (fs : Files) (path : String) :
    fs.contains path = false ↔
      (∀ p, fs.place? path = some p → fs.entries.lookup p = none) ∧
        ∀ p slash, fs.locate path = .ok (p, slash) → fs.isDirectory p = false := by
  unfold contains
  cases hfind : fs.find path with
  | ok pair =>
      have hpair := (find_ok_iff fs path pair.1 pair.2).mp hfind
      simp only [Bool.true_eq_false, false_iff, not_and]
      intro hnone
      rw [hnone pair.1 hpair.1] at hpair
      cases hpair.2
  | error fault =>
      have hnone : ∀ p, fs.place? path = some p → fs.entries.lookup p = none := by
        intro p hp
        cases hlook : fs.entries.lookup p with
        | none => rfl
        | some c =>
            rw [(find_ok_iff fs path p c).mpr ⟨hp, hlook⟩] at hfind
            cases hfind
      simp only [decide_eq_false_iff_not]
      constructor
      -- What was found wrong decides: a directory would have been found.
      · intro hfault
        refine ⟨hnone, fun p slash hlocate => ?_⟩
        rw [Bool.eq_false_iff]
        intro hdir
        unfold find at hfind
        rw [hlocate] at hfind
        simp only [bind, Except.bind, hdir, if_true] at hfind
        cases hfind
        exact hfault rfl
      · rintro ⟨_, hdir⟩ rfl
        unfold find at hfind
        cases hlocate : fs.locate path with
        | error e =>
            rw [hlocate] at hfind
            cases hfind
            exact locate_ne_isDirectory fs path hlocate
        | ok pair =>
            rw [hlocate] at hfind
            simp only [bind, Except.bind, hdir pair.1 pair.2 hlocate, Bool.false_eq_true,
              if_false] at hfind
            split at hfind
            · cases hfind
            · split at hfind <;> cases hfind

/-- A file that is written has the text as its contents. -/
theorem write_ok_iff (fs fs' : Files) (path text : String) :
    fs.write path text = .ok fs' ↔
      ∃ p, fs.place? path = some p ∧ fs' = fs.set p (.text text) := by
  unfold write place?
  cases fs.target path with
  | error fault => simp [Except.toOption]
  | ok p => simp [Except.toOption, eq_comm]

/-- A text is added to what is there, or to nothing. -/
theorem append_ok_iff (fs fs' : Files) (path text : String) :
    fs.append path text = .ok fs' ↔ ∃ p, fs.place? path = some p ∧
      fs' = fs.set p (((fs.entries.lookup p).getD (.text "")).append text) := by
  unfold append place?
  cases fs.target path with
  | error fault => simp [Except.toOption]
  | ok p => simp [Except.toOption, eq_comm]

/-- A text is added to a file that is there. -/
theorem extend_ok_iff (fs fs' : Files) (path text : String) :
    fs.extend path text = .ok fs' ↔ ∃ p c, fs.place? path = some p ∧
      fs.entries.lookup p = some c ∧ fs' = fs.set p (c.append text) := by
  unfold extend
  cases hfind : fs.find path with
  | error fault =>
      simp only [reduceCtorEq, false_iff]
      rintro ⟨p, c, hp, hc, _⟩
      rw [(find_ok_iff fs path p c).mpr ⟨hp, hc⟩] at hfind
      cases hfind
  | ok pair =>
      have hpair := (find_ok_iff fs path pair.1 pair.2).mp hfind
      constructor
      · intro h
        cases h
        exact ⟨pair.1, pair.2, hpair.1, hpair.2, rfl⟩
      · rintro ⟨p, c, hp, hc, rfl⟩
        rw [(find_ok_iff fs path p c).mpr ⟨hp, hc⟩] at hfind
        cases hfind
        rfl

/-- Two file systems with the same directories and contents. -/
structure Alike (fs fs' : Files) : Prop where
  tree : SameTree fs fs'
  contents : ∀ p, fs'.entries.lookup p = fs.entries.lookup p

/-- A walk looks at directories and contents only. -/
theorem Alike.walk_eq (h : Alike fs fs') (p : Place) (segments : List String) :
    fs'.walk p segments = fs.walk p segments := by
  induction segments generalizing p with
  | nil => rfl
  | cons segment segments ih =>
      unfold walk enter
      simp only [h.tree _, h.contents, ih]

/-- No path tells two alike file systems apart. -/
theorem Alike.read_eq (h : Alike fs fs') (path : String) : fs'.read path = fs.read path := by
  have hlocate : fs'.locate path = fs.locate path := by
    unfold locate
    rw [h.walk_eq]
  unfold read find
  simp only [hlocate, h.tree _, h.contents]

end Operations

end Files

end DataflowCircuit
