import Std.Data.HashMap
import Cadence.Arena
import Cadence.Entity

/-!
An index of components and their owners: a dense array in which a table finds the position of every handle. A removed
entry is replaced by the last one, so the order of the entries depends on what was removed before.
-/

namespace Cadence

structure Index.Entry where
  handle : Handle
  owner : Entity
  deriving DecidableEq, Inhabited

structure Index where
  positions : Std.HashMap Handle Nat := {}
  entries : Array Index.Entry := #[]
  deriving Inhabited

namespace Index

def empty : Index := {}

def contains (ix : Index) (h : Handle) : Bool := ix.positions.contains h

def size (ix : Index) : Nat := ix.entries.size

def isEmpty (ix : Index) : Bool := ix.entries.isEmpty

/-- The entries of one owner. -/
def countOf (ix : Index) (owner : Entity) : Nat := ix.entries.countP (·.owner == owner)

/-- Adds an entry; answers `false` and changes nothing if the handle is there already. -/
def insert (ix : Index) (h : Handle) (owner : Entity) : Bool × Index :=
  if ix.positions.contains h then (false, ix)
  else (true, ⟨ix.positions.insert h ix.entries.size, ix.entries.push ⟨h, owner⟩⟩)

/-- Takes out an entry and moves the last entry to its place. -/
def remove (ix : Index) (h : Handle) : Option Entry × Index :=
  match ix.positions[h]? with
  | none => (none, ix)
  | some i =>
    let removed := ix.entries[i]?
    let entries := (ix.entries.swapIfInBounds i (ix.entries.size - 1)).pop
    let positions := ix.positions.erase h
    let positions := match entries[i]? with
      | none => positions
      | some moved => positions.insert moved.handle i
    (removed, ⟨positions, entries⟩)

def clear (_ : Index) : Index := {}

end Index

end Cadence
