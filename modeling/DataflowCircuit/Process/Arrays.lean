/-!
# Arrays of Channels

Declaring `u[2]` declares the channels `u[0]` and `u[1]`, and from then on
the array is only visible in the names. Where declarations are written out
again, the members of an array are gathered into one declaration: it stands
where its first member stood and has as many members as there are names with
that base.

## Main definitions

* `arrayBase?`: The base of an indexed name.
* `groupArrays`: Declarations for a list of names, each with the position of
  the first name it covers.
-/

namespace DataflowCircuit

/-- The base of a name that ends in an index, if the base has no index
    itself. -/
def arrayBase? (name : String) : Option String :=
  match name.toList.reverse with
  | ']' :: inner =>
    let digits := inner.takeWhile (· ≠ '[')
    match inner.dropWhile (· ≠ '[') with
    | '[' :: base =>
      if digits.all Char.isDigit && base.all (fun c => c ≠ '[' && c ≠ ']') then
        some (String.ofList base.reverse)
      else none
    | _ => none
  | _ => none

/-- The declaration that the name at a position stands for, where `bases` are
    the bases of all names: the name itself, or its array if no earlier name
    belongs to that. -/
def groupAt (bases : List (Option String)) (name : String) (position : Nat) :
    Option (String × Nat) :=
  match arrayBase? name with
  | none => some (name, position)
  | some base =>
    if bases.idxOf (some base) = position then
      some (s!"{base}[{bases.count (some base)}]", position)
    else none

/-- The declarations that cover a list of names, in order of their first
    names, each with the position of that name. -/
def groupArrays (names : List String) : List (String × Nat) :=
  let bases := names.map arrayBase?
  names.zipIdx.filterMap fun (name, position) => groupAt bases name position

end DataflowCircuit
