import Cadence.Text.Blank

/-!
The three phases of a frame.
-/

namespace Cadence

inductive Phase
  | early
  | script
  | late
  deriving DecidableEq, Inhabited, Repr

namespace Phase

/-- All phases in the order in which a frame runs them. -/
def all : List Phase := [early, script, late]

def index : Phase → Nat
  | early => 0
  | script => 1
  | late => 2

def next? : Phase → Option Phase
  | early => some script
  | script => some late
  | late => none

def name : Phase → String
  | early => "early"
  | script => "script"
  | late => "late"

/-- Reads a name in either case, with blanks around it allowed. -/
def ofName? (text : String) : Option Phase :=
  let word := Text.lowered (Text.stripped text)
  all.find? fun phase => phase.name == word

theorem mem_all (phase : Phase) : phase ∈ all := by cases phase <;> decide

end Phase

/-- One value for each phase. -/
structure ByPhase (α : Type) where
  early : α
  script : α
  late : α
  deriving DecidableEq, Inhabited

namespace ByPhase

variable {α β : Type}

def const (a : α) : ByPhase α := ⟨a, a, a⟩

def get (m : ByPhase α) : Phase → α
  | .early => m.early
  | .script => m.script
  | .late => m.late

def modify (m : ByPhase α) (phase : Phase) (f : α → α) : ByPhase α :=
  match phase with
  | .early => { m with early := f m.early }
  | .script => { m with script := f m.script }
  | .late => { m with late := f m.late }

def toList (m : ByPhase α) : List α := [m.early, m.script, m.late]

@[simp] theorem get_const (a : α) (phase : Phase) : (const a).get phase = a := by cases phase <;> rfl

theorem get_modify (m : ByPhase α) (phase phase' : Phase) (f : α → α) :
    (m.modify phase f).get phase' = if phase' = phase then f (m.get phase) else m.get phase' := by
  cases phase <;> cases phase' <;> rfl

@[simp] theorem get_modify_self (m : ByPhase α) (phase : Phase) (f : α → α) :
    (m.modify phase f).get phase = f (m.get phase) := by simp [get_modify]

end ByPhase

end Cadence
