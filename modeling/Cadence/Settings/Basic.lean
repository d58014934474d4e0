import Cadence.Phase
import Cadence.Drawing.Screen

/-!
The settings of an engine and what makes them valid.
-/

namespace Cadence

/-- How many workers there are, none meaning one for each core, and which phases update their systems on them. -/
structure Settings.Scheduling where
  workers : Nat := 0
  parallel : ByPhase Bool := ⟨true, false, false⟩
  deriving DecidableEq, Inhabited

structure Settings.Presentation where
  capacity : Nat := 256
  layered : Bool := true
  mailboxSize : Nat := Screen.defaultMailboxSize
  deriving DecidableEq, Inhabited

structure Settings.Storage where
  entities : Nat := 1024
  components : Nat := 4096
  deriving DecidableEq, Inhabited

structure Settings where
  scheduling : Settings.Scheduling := {}
  presentation : Settings.Presentation := {}
  storage : Settings.Storage := {}
  deriving DecidableEq, Inhabited

namespace Settings

/-- What settings are refused for. -/
inductive Flaw
  | tooSmall (key : String)
  | noThreadCount (name value : String)
  | noFlag (name value : String)
  deriving DecidableEq

namespace Flaw

def message : Flaw → String
  | tooSmall key => s!"invalid configuration: {key} must be at least 1"
  | noThreadCount name value => s!"invalid configuration: {name} must be a thread count, got '{value}'"
  | noFlag name value => s!"invalid configuration: {name} must be a boolean, got '{value}'"

end Flaw

inductive Error
  | unreadable
  | malformed
  | unwritable
  | invalid (flaw : Flaw)
  deriving DecidableEq

namespace Scheduling

/-- No phase runs on workers. -/
def serial : Scheduling := { parallel := ⟨false, false, false⟩ }

def anyParallel (s : Scheduling) : Bool := Phase.all.any s.parallel.get

def setParallel (s : Scheduling) (phase : Phase) (parallel : Bool) : Scheduling :=
  { s with parallel := s.parallel.modify phase fun _ => parallel }

end Scheduling

/-- The first number that must not be 0 but is. -/
def validate (s : Settings) : Except Error Unit :=
  if s.presentation.mailboxSize = 0 then .error (.invalid (.tooSmall "render.notify_capacity"))
  else if s.storage.entities = 0 then .error (.invalid (.tooSmall "world.entity_capacity"))
  else if s.storage.components = 0 then .error (.invalid (.tooSmall "world.component_capacity"))
  else .ok ()

end Settings

end Cadence
