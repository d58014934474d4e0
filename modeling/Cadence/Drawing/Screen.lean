import Cadence.Drawing.DrawList

/-!
A screen with two lists of primitives. One is being drawn on, the other is presented; a flip exchanges their roles.
Readers who asked for it get a notice of every flip in a mailbox of limited size.
-/

namespace Cadence

/-- Tells that the list of a frame is presented now, and its length. -/
structure Notice where
  frame : Nat
  primitives : Nat
  deriving DecidableEq, Inhabited

namespace Screen

/-- Which of the two lists. -/
inductive Side
  | first
  | second
  deriving DecidableEq, Inhabited

namespace Side

def other : Side → Side
  | first => second
  | second => first

def index : Side → Nat
  | first => 0
  | second => 1

@[simp] theorem other_other (s : Side) : s.other.other = s := by cases s <;> rfl

end Side

/-- A reader who leaves is noticed only at the next flip. -/
inductive Reader
  | reading
  | leaving
  | gone
  deriving DecidableEq, Inhabited

structure Mailbox where
  reader : Reader := .reading
  unread : List Notice := []
  deriving Inhabited

namespace Mailbox

/-- Puts a notice into the mailbox of a reader who is there, unless `capacity` notices are waiting already. -/
def deliver (capacity : Nat) (notice : Notice) (m : Mailbox) : Mailbox :=
  match m.reader with
  | .reading => if m.unread.length < capacity then { m with unread := m.unread ++ [notice] } else m
  | .leaving => { m with reader := .gone }
  | .gone => m

end Mailbox

def defaultMailboxSize : Nat := 4

end Screen

open Screen

structure Screen where
  first : DrawList := {}
  second : DrawList := {}
  drawn : Side := .first
  frame : Nat := 0
  layered : Bool := false
  mailboxSize : Nat := defaultMailboxSize
  mailboxes : Array Mailbox := #[]
  deriving Inhabited

namespace Screen

/-- Orders every finished list by layer. -/
def withLayers (s : Screen) (layered : Bool) : Screen := { s with layered }

/-- The size of the mailboxes, at least one. -/
def withMailboxSize (s : Screen) (size : Nat) : Screen := { s with mailboxSize := max size 1 }

def list (s : Screen) : Side → DrawList
  | .first => s.first
  | .second => s.second

def modifyList (s : Screen) (side : Side) (f : DrawList → DrawList) : Screen :=
  match side with
  | .first => { s with first := f s.first }
  | .second => { s with second := f s.second }

/-- The list that is being drawn on. -/
def active (s : Screen) : DrawList := s.list s.drawn

def presentable (s : Screen) : DrawList := s.list s.drawn.other

def submit (s : Screen) (p : Primitive) : Screen := s.modifyList s.drawn (·.push p)

/-- Appends primitives to the active list and counts them. -/
def submitAll (s : Screen) (ps : Array Primitive) : Nat × Screen :=
  let s' := s.modifyList s.drawn (·.extend ps)
  (s'.active.size - s.active.size, s')

def clearActive (s : Screen) : Screen := s.modifyList s.drawn (·.clear)

/-- Finishes the active list, presents it and tells the readers. The new active list still holds what was presented
before. -/
def flip (s : Screen) : Notice × Screen :=
  let frame := s.frame + 1
  let finish (l : DrawList) : DrawList :=
    let l := { l with frame }
    if s.layered then l.sortByLayer else l
  let notice : Notice := ⟨frame, s.active.size⟩
  let s := s.modifyList s.drawn finish
  (notice,
    { s with drawn := s.drawn.other, frame, mailboxes := s.mailboxes.map (Mailbox.deliver s.mailboxSize notice) })

/-- Opens a mailbox; readers are numbered in the order in which they subscribe. -/
def subscribe (s : Screen) : Screen := { s with mailboxes := s.mailboxes.push {} }

/-- The readers that the screen still writes to. -/
def subscriberCount (s : Screen) : Nat := s.mailboxes.countP (·.reader ≠ .gone)

def unsubscribe (s : Screen) (reader : Nat) : Screen :=
  { s with mailboxes := s.mailboxes.modify reader fun m =>
      if m.reader = .reading then { m with reader := .leaving, unread := [] } else m }

/-- Takes notices out of a mailbox, the oldest first and at most `limit` of them if one is given; `none` for a reader
who is not there. -/
def receive (s : Screen) (reader : Nat) (limit : Option Nat) : Option (List Notice) × Screen :=
  match s.mailboxes[reader]? with
  | some ⟨.reading, unread⟩ =>
    let count := limit.getD unread.length
    (some (unread.take count),
      { s with mailboxes := s.mailboxes.modify reader fun m => { m with unread := unread.drop count } })
  | _ => (none, s)

@[simp] theorem list_modifyList_self (s : Screen) (side : Side) (f : DrawList → DrawList) :
    (s.modifyList side f).list side = f (s.list side) := by cases side <;> rfl

@[simp] theorem list_modifyList_other (s : Screen) (side : Side) (f : DrawList → DrawList) :
    (s.modifyList side f).list side.other = s.list side.other := by cases side <;> rfl

@[simp] theorem drawn_modifyList (s : Screen) (side : Side) (f : DrawList → DrawList) :
    (s.modifyList side f).drawn = s.drawn := by cases side <;> rfl

end Screen

end Cadence
