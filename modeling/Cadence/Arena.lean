/-!
An arena of values behind versioned handles. A cell that has been emptied is filled again under a new version, so
a handle to its former value finds nothing. The cell emptied last is filled first.
-/

namespace Cadence

structure Handle where
  index : Nat
  version : UInt32
  deriving DecidableEq, Inhabited, Repr

namespace Handle

instance : Hashable Handle := ⟨fun h => mixHash (hash h.index) (hash h.version)⟩

instance : LawfulHashable Handle := ⟨fun a b h => by rw [eq_of_beq h]⟩

/-- Points nowhere: no arena has so many cells. -/
def null : Handle := ⟨4294967295, 1⟩

def isNull (h : Handle) : Bool := h.index == null.index

def display (h : Handle) : String :=
  if h.isNull then "null" else s!"{h.index}v{h.version}"

/-- The form in which messages show a handle. -/
def describe (h : Handle) : String := s!"ComponentHandle({h.display})"

end Handle

/-- The version is odd while the cell holds a value and even while it is empty. -/
structure Arena.Cell (α : Type) where
  version : UInt32
  value : Option α
  deriving Inhabited

/-- Cell 0 is never filled. `vacant` lists the other empty cells, the one emptied last in front. -/
structure Arena (α : Type) where
  cells : Array (Arena.Cell α) := #[⟨0, none⟩]
  vacant : List Nat := []
  size : Nat := 0
  deriving Inhabited

namespace Arena

variable {α : Type}

def empty : Arena α := {}

def get? (a : Arena α) (h : Handle) : Option α :=
  a.cells[h.index]?.bind fun cell => if cell.version = h.version then cell.value else none

def contains (a : Arena α) (h : Handle) : Bool := (a.get? h).isSome

/-- Stores a value and answers the handle that finds it. -/
def insert (a : Arena α) (value : α) : Handle × Arena α :=
  match a.vacant with
  | [] =>
    (⟨a.cells.size, 1⟩, { a with cells := a.cells.push ⟨1, some value⟩, size := a.size + 1 })
  | i :: rest =>
    let version := ((a.cells[i]?.map (·.version)).getD 0) ||| 1
    (⟨i, version⟩,
      { cells := a.cells.modify i fun _ => ⟨version, some value⟩, vacant := rest, size := a.size + 1 })

/-- Changes the value that `h` finds, if there is one. -/
def modify (a : Arena α) (h : Handle) (f : α → α) : Arena α :=
  { a with cells := a.cells.modify h.index fun cell =>
      if cell.version = h.version then { cell with value := cell.value.map f } else cell }

/-- Takes out the value that `h` finds; from then on the handle finds nothing. -/
def remove (a : Arena α) (h : Handle) : Option α × Arena α :=
  match a.get? h with
  | none => (none, a)
  | some value =>
    (some value,
      { cells := a.cells.modify h.index fun cell => ⟨cell.version + 1, none⟩
        vacant := h.index :: a.vacant
        size := a.size - 1 })

/-- The stored values with their handles, in the order of the cells. -/
def toList (a : Arena α) : List (Handle × α) :=
  a.cells.toList.zipIdx.filterMap fun (cell, i) => cell.value.map fun value => (⟨i, cell.version⟩, value)

theorem get?_eq_some_iff {a : Arena α} {h : Handle} {x : α} :
    a.get? h = some x ↔ a.cells[h.index]? = some ⟨h.version, some x⟩ := by
  unfold get?
  cases a.cells[h.index]? with
  | none => simp
  | some cell =>
    obtain ⟨version, value⟩ := cell
    simp only [Option.bind_some, Option.some.injEq, Cell.mk.injEq]
    split <;> simp_all

@[simp] theorem get?_empty (h : Handle) : (empty : Arena α).get? h = none := by
  obtain ⟨i, v⟩ := h
  cases i <;> simp [get?, empty]

theorem get?_modify (a : Arena α) (h h' : Handle) (f : α → α) :
    (a.modify h f).get? h' = if h' = h then (a.get? h).map f else a.get? h' := by
  obtain ⟨i, v⟩ := h
  obtain ⟨i', v'⟩ := h'
  simp only [get?, modify, Array.getElem?_modify, Handle.mk.injEq]
  by_cases hi : i = i'
  · subst hi
    cases a.cells[i]? with
    | none => simp
    | some cell => by_cases hu : cell.version = v <;> by_cases hv : cell.version = v' <;> grind
  · simp [hi, Ne.symm hi]

@[simp] theorem size_modify (a : Arena α) (h : Handle) (f : α → α) : (a.modify h f).size = a.size := rfl

end Arena

end Cadence
