import Cadence.InOrder
import Cadence.Scheduler

/-!
An engine: a scheduler with the world its systems work on, the screen they draw on and the host they share.
-/

namespace Cadence

structure Engine (σ ρ ε : Type) where
  scheduler : Scheduler σ ρ := {}
  world : World := {}
  screen : Screen := {}
  host : ε

namespace Engine

variable {σ ρ ε : Type}

/-- An engine with valid settings. -/
def ofSettings (s : Settings) (host : ε) : Except Settings.Error (Engine σ ρ ε) :=
  s.validate.map fun _ =>
    { scheduler := { settings := s.scheduling }
      screen := (({} : Screen).withLayers s.presentation.layered).withMailboxSize s.presentation.mailboxSize
      host }

/-- What the systems of a phase see. -/
def context (e : Engine σ ρ ε) (phase : Phase) (parallel : Bool) : Context :=
  ⟨e.world, phase, e.scheduler.frame, parallel⟩

def slotAt? (e : Engine σ ρ ε) (phase : Phase) (i : Nat) : Option (Slot σ ρ) := (e.scheduler.slots.get phase)[i]?

/-- Changes the slot at a position of a phase. -/
def modifySlot (e : Engine σ ρ ε) (phase : Phase) (i : Nat) (f : Slot σ ρ → Slot σ ρ) : Engine σ ρ ε :=
  { e with scheduler := { e.scheduler with slots := e.scheduler.slots.modify phase (·.modify i f) } }

/-- Appends what a system has drawn to the active list; only the late phase draws. -/
def draw (e : Engine σ ρ ε) (phase : Phase) (drawn : Array Primitive) : Engine σ ρ ε :=
  if phase = .late then { e with screen := (e.screen.submitAll drawn).2 } else e

/-- Breaks a phase off: results that wait in it are dropped, and no phase runs any more. -/
def abort (e : Engine σ ρ ε) (phase : Phase) : Engine σ ρ ε :=
  { e with
    scheduler := { e.scheduler with
      slots := e.scheduler.slots.modify phase (·.map ({ · with pending := none }))
      poisoned := true } }

end Engine

end Cadence
