import Cadence.Arena
import Cadence.Entity
import Cadence.Component.Basic

/-!
The store of a world's components. A detached component stays readable until the handles queued for release are
released together.
-/

namespace Cadence

inductive Attachment
  | attached
  | detached
  deriving DecidableEq, Inhabited

structure Store.Entry where
  owner : Entity
  attachment : Attachment
  component : Component
  deriving Inhabited

structure Store where
  entries : Arena Store.Entry := {}
  releases : Array Handle := #[]
  deriving Inhabited

namespace Store

def get? (s : Store) (h : Handle) : Option Component := (s.entries.get? h).map (·.component)

def getAs? (s : Store) (k : Kind) (h : Handle) : Option k.Data := (s.get? h).bind (·.as k)

def owner? (s : Store) (h : Handle) : Option Entity := (s.entries.get? h).map (·.owner)

def attachment? (s : Store) (h : Handle) : Option Attachment := (s.entries.get? h).map (·.attachment)

def contains (s : Store) (h : Handle) : Bool := s.entries.contains h

/-- Components stored, those waiting for their release included. -/
def size (s : Store) : Nat := s.entries.size

def isEmpty (s : Store) : Bool := s.size == 0

def insert (s : Store) (owner : Entity) (c : Component) : Handle × Store :=
  let (h, entries) := s.entries.insert ⟨owner, .attached, c⟩
  (h, { s with entries })

/-- Replaces the component behind a handle. -/
def set (s : Store) (h : Handle) (c : Component) : Store :=
  { s with entries := s.entries.modify h fun entry => { entry with component := c } }

/-- Answers `false` if there is nothing attached behind the handle. -/
def detach (s : Store) (h : Handle) : Bool × Store :=
  if s.attachment? h = some .attached then
    (true, { s with entries := s.entries.modify h fun entry => { entry with attachment := .detached } })
  else (false, s)

def scheduleRelease (s : Store) (h : Handle) : Store := { s with releases := s.releases.push h }

/-- Takes every component out whose release was scheduled, and counts them. -/
def releaseScheduled (s : Store) : Nat × Store :=
  let release (state : Nat × Arena Entry) (h : Handle) : Nat × Arena Entry :=
    match state.2.remove h with
    | (some _, entries) => (state.1 + 1, entries)
    | (none, entries) => (state.1, entries)
  let (count, entries) := s.releases.toList.foldl release (0, s.entries)
  (count, { entries, releases := #[] })

/-- The attached components in the order of the arena. -/
def attached (s : Store) : List (Handle × Entity × Component) :=
  s.entries.toList.filterMap fun (h, entry) =>
    if entry.attachment = .attached then some (h, entry.owner, entry.component) else none

end Store

end Cadence
