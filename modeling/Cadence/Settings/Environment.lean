import Cadence.Text.Numeral
import Cadence.Settings.Basic

/-!
Environment variables that take precedence over the settings.
-/

namespace Cadence.Settings

/-- The variables that are set. -/
structure Environment where
  workers : Option String := none
  parallelEarly : Option String := none

def workersVariable : String := "FRAME_ENGINE_WORKER_THREADS"

def parallelEarlyVariable : String := "FRAME_ENGINE_PARALLEL_EARLY"

/-- A number of one machine word, a plus sign in front and blanks around it allowed. -/
def threadCount? (value : String) : Option Nat :=
  let digits := match (Text.stripped value).toList with
    | '+' :: digits => digits
    | digits => digits
  (Text.digits? digits).filter (· ≤ Text.maxWord)

/-- A truth value in one of its spellings, in either case and with blanks around it allowed. -/
def flag? (value : String) : Option Bool :=
  let word := Text.lowered (Text.stripped value)
  if ["1", "true", "yes", "on"].contains word then some true
  else if ["0", "false", "no", "off"].contains word then some false
  else none

def overrideWorkers (s : Settings) : Option String → Except Error Settings
  | none => .ok s
  | some value =>
    match threadCount? value with
    | none => .error (.invalid (.noThreadCount workersVariable value))
    | some workers => .ok { s with scheduling := { s.scheduling with workers } }

def overrideParallelEarly (s : Settings) : Option String → Except Error Settings
  | none => .ok s
  | some value =>
    match flag? value with
    | none => .error (.invalid (.noFlag parallelEarlyVariable value))
    | some parallel => .ok { s with scheduling := s.scheduling.setParallel .early parallel }

def override (s : Settings) (env : Environment) : Except Error Settings :=
  (s.overrideWorkers env.workers).bind (·.overrideParallelEarly env.parallelEarly)

end Cadence.Settings
