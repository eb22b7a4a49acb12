import DataflowCircuit.Error
import DataflowCircuit.Naming
import DataflowCircuit.Text.Fingerprint

/-!
# What a Run Has Written

Templates and cost blocks are written once in a run, however many instances
use them, so the run remembers the template names and instance keys it has
seen.

Unit names are meant to tell units apart and can fail to. The first body
under a name keeps it, and another body gets the name with its fingerprint
added, so the name of a body does not depend on how often it is met.

## Main definitions

* `Cache`: What has been seen.
* `Cache.addTemplate`, `Cache.addInstance`: Note a name or key, and say
  whether it is new.
* `Cache.disambiguate`: The template name of a body.
-/

namespace DataflowCircuit

/-- The names and keys that a run has seen, and the fingerprint of the body
    under each unit name. -/
structure Cache where
  bodies : List (String × UInt64)
  templates : List String
  instances : List String

namespace Cache

/-- Nothing has been seen. -/
def empty : Cache :=
  ⟨[], [], []⟩

/-- Note a template name; the flag says whether it is new. -/
def addTemplate (c : Cache) (name : String) : Bool × Cache :=
  if name ∈ c.templates then (false, c)
  else (true, { c with templates := name :: c.templates })

/-- Note an instance key; the flag says whether it is new. -/
def addInstance (c : Cache) (key : String) : Bool × Cache :=
  if key ∈ c.instances then (false, c)
  else (true, { c with instances := key :: c.instances })

/-- Note the body under a name, unless the name has one. -/
def addBody (c : Cache) (name : String) (fp : UInt64) : Cache :=
  match c.bodies.lookup name with
  | some _ => c
  | none => { c with bodies := (name, fp) :: c.bodies }

/-- The name with a fingerprint added. -/
def hashedName (name : String) (fp : UInt64) : String :=
  name ++ (NameToken.hash fp.toNat).text

/-- The template name of a body that is called `name`. -/
def disambiguate (c : Cache) (name body : String) : String × Cache × List Warning :=
  let fp := Text.fingerprint body
  match c.bodies.lookup name with
  | none => (name, c.addBody name fp, [])
  | some before =>
    if before = fp then (name, c, [])
    else
      let renamed := hashedName name fp
      (renamed, c.addBody renamed fp, [.renamed name renamed])

end Cache

end DataflowCircuit
