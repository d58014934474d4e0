import Cadence.Settings.Basic
import Cadence.System.Basic

/-!
The state of a scheduler: its systems in the phases they were registered into, and where in the frame it is.
-/

namespace Cadence

/-- A registered system, with the result of its last update until that is applied. -/
structure Slot (σ ρ : Type) where
  id : Nat
  name : String
  phase : Phase
  system : σ
  pending : Option ρ := none

/-- How a registered system is shown. -/
def displaySystem (id : Nat) : String := s!"System({id})"

/-- What a frame is made of: its three phases and its end. -/
inductive Step
  | phase (phase : Phase)
  | endOfFrame
  deriving DecidableEq, Inhabited

namespace Step

def next : Step → Step
  | phase p => match p.next? with
    | some p => phase p
    | none => endOfFrame
  | endOfFrame => phase .early

def describe : Step → String
  | phase p => s!"{p.name} phase"
  | endOfFrame => "end of frame"

end Step

/-- Why the engine refuses or breaks off an operation. -/
inductive EngineError
  | duplicateSystem (name : String)
  | unknownPhase (text : String)
  | incompatibleApi (name version : String)
  | initFailed (name : String) (fault : Fault)
  | outOfOrder (expected requested : Step)
  | shutDown
  | systemFailed (phase : Phase) (name : String) (fault : Fault)
  | poisoned
  | world (error : WorldError)
  deriving DecidableEq, Inhabited

namespace EngineError

def message : EngineError → String
  | duplicateSystem name => s!"system '{name}' is already registered"
  | unknownPhase text => s!"unknown phase '{text}'"
  | incompatibleApi name version =>
    s!"system '{name}' API version {version} is incompatible with engine API version {apiVersion}"
  | initFailed name fault => s!"failed to initialize system '{name}': {fault.message}"
  | outOfOrder expected requested => s!"{requested.describe} requested but the frame expects {expected.describe}"
  | shutDown => "scheduler has been shut down"
  | systemFailed phase name fault => s!"system '{name}' failed during {phase.name} phase: {fault.message}"
  | poisoned => "scheduler is poisoned by an earlier frame failure"
  | world error => error.message

end EngineError

/-- A scheduler that is poisoned runs no phase any more; one that is closed has shut its systems down. -/
structure Scheduler (σ ρ : Type) where
  settings : Settings.Scheduling := {}
  slots : ByPhase (List (Slot σ ρ)) := .const []
  names : List String := []
  nextId : Nat := 0
  next : Step := .phase .early
  frame : Nat := 0
  poisoned : Bool := false
  closed : Bool := false

namespace Scheduler

variable {σ ρ : Type}

/-- All systems by phase, and within a phase in the order of registration. -/
def allSlots (s : Scheduler σ ρ) : List (Slot σ ρ) := s.slots.toList.flatten

def slot? (s : Scheduler σ ρ) (id : Nat) : Option (Slot σ ρ) := s.allSlots.find? (·.id == id)

def systemId? (s : Scheduler σ ρ) (name : String) : Option Nat := (s.allSlots.find? (·.name == name)).map (·.id)

def phaseOf? (s : Scheduler σ ρ) (id : Nat) : Option Phase := (s.slot? id).map (·.phase)

def namesIn (s : Scheduler σ ρ) (phase : Phase) : List String := (s.slots.get phase).map (·.name)

/-- Changes the system with an id. -/
def modifySystem (s : Scheduler σ ρ) (id : Nat) (f : σ → σ) : Scheduler σ ρ :=
  let change (slot : Slot σ ρ) : Slot σ ρ := if slot.id = id then { slot with system := f slot.system } else slot
  { s with slots := ⟨s.slots.early.map change, s.slots.script.map change, s.slots.late.map change⟩ }

/-- Whether a step may be done now. -/
def check (s : Scheduler σ ρ) (step : Step) : Except EngineError Unit :=
  if s.closed then .error .shutDown
  else if s.poisoned then .error .poisoned
  else if s.next ≠ step then .error (.outOfOrder s.next step)
  else .ok ()

end Scheduler

end Cadence
