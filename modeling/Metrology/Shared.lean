import Metrology.Catalog

/-!
# What registries share

Registries are told apart by their tags, which are taken from a counter of 32 bits. Texts and data
without a registry of their own are read with one registry for the whole program. It is the standard
catalog unless another registry is installed before it is first used, and once it has been settled it
stays.
-/
namespace Metrology

structure Shared where
  nextTag : Nat := 0
  settled : Option Registry := none

namespace Shared

/-- The tag of a new registry. After the largest number of 32 bits, tags start again from zero. -/
def takeTag (shared : Shared) : Nat × Shared :=
  (shared.nextTag, { shared with nextTag := (shared.nextTag + 1) % 4294967296 })

/-- A new registry, in which nothing has been declared. -/
def create (shared : Shared) : Registry × Shared :=
  let (tag, shared) := shared.takeTag
  (.empty tag, shared)

/-- A new registry with the standard catalog. -/
def createStandard (shared : Shared) : Registry × Shared :=
  let (tag, shared) := shared.takeTag
  (Catalog.standard tag, shared)

/-- The shared registry; looking at it settles it. -/
def get (shared : Shared) : Registry × Shared :=
  match shared.settled with
  | some registry => (registry, shared)
  | none =>
    let (registry, shared) := shared.createStandard
    (registry, { shared with settled := some registry })

/-- Choose the shared registry, which can be done once. -/
def install (shared : Shared) (registry : Registry) : Except UnitError Shared :=
  match shared.settled with
  | none => .ok { shared with settled := some registry }
  | some _ => .error .alreadyInstalled

end Shared

end Metrology
