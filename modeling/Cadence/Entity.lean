/-!
Entities. An id is used again after its entity has been freed; the generation tells the users of one id apart.
-/

namespace Cadence

structure Entity where
  id : Nat
  generation : UInt32
  deriving DecidableEq, Inhabited, Repr

namespace Entity

/-- By id, and within an id by generation. -/
instance : Ord Entity where
  compare a b := (compare a.id b.id).then (compare a.generation b.generation)

def display (e : Entity) : String := s!"Entity({e.id}, gen: {e.generation})"

def displayId (e : Entity) : String := s!"Entity({e.id})"

end Entity

end Cadence
