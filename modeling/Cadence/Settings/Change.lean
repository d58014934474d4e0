import Cadence.Settings.Basic

/-!
Changes to settings, one at a time.
-/

namespace Cadence.Settings

inductive Change
  | scheduling (value : Scheduling)
  | workers (value : Nat)
  | parallel (phase : Phase) (value : Bool)
  | capacity (value : Nat)
  | layered (value : Bool)
  | mailboxSize (value : Nat)
  | storage (value : Storage)
  | resetPresentation
  | resetStorage

def change (s : Settings) : Change → Settings
  | .scheduling value => { s with scheduling := value }
  | .workers value => { s with scheduling := { s.scheduling with workers := value } }
  | .parallel phase value => { s with scheduling := s.scheduling.setParallel phase value }
  | .capacity value => { s with presentation := { s.presentation with capacity := value } }
  | .layered value => { s with presentation := { s.presentation with layered := value } }
  | .mailboxSize value => { s with presentation := { s.presentation with mailboxSize := value } }
  | .storage value => { s with storage := value }
  | .resetPresentation => { s with presentation := {} }
  | .resetStorage => { s with storage := {} }

end Cadence.Settings
