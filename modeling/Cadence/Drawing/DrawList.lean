import Cadence.Drawing.Primitive

/-!
Lists of primitives in drawing order, stamped with the frame they were finished in.
-/

namespace Cadence

/-- The stamp is 0 until the list has been presented. -/
structure DrawList where
  items : Array Primitive := #[]
  frame : Nat := 0
  deriving Inhabited

namespace DrawList

def push (l : DrawList) (p : Primitive) : DrawList := { l with items := l.items.push p }

def extend (l : DrawList) (ps : Array Primitive) : DrawList := { l with items := l.items ++ ps }

/-- Orders by layer; within a layer the order stays. -/
def sortByLayer (l : DrawList) : DrawList :=
  { l with items := (l.items.toList.mergeSort fun p q => p.layer ≤ q.layer).toArray }

def clear (l : DrawList) : DrawList := { l with items := #[] }

def fromSource (l : DrawList) (e : Entity) : Array Primitive :=
  l.items.filter fun p => p.source == some e

def size (l : DrawList) : Nat := l.items.size

@[simp] theorem items_push (l : DrawList) (p : Primitive) : (l.push p).items = l.items.push p := rfl

@[simp] theorem items_extend (l : DrawList) (ps : Array Primitive) : (l.extend ps).items = l.items ++ ps := rfl

@[simp] theorem items_clear (l : DrawList) : l.clear.items = #[] := rfl

@[simp] theorem frame_sortByLayer (l : DrawList) : l.sortByLayer.frame = l.frame := rfl

theorem sortByLayer_perm (l : DrawList) : l.sortByLayer.items.toList.Perm l.items.toList := by
  simpa [sortByLayer] using List.mergeSort_perm ..

end DrawList

end Cadence
