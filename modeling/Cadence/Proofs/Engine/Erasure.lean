import Cadence.Proofs.Engine.Projection
import Cadence.Proofs.Engine.Recording

/-!
What the log of a recorded run says is true of the run itself, because nothing but the log tells the two apart:
forgetting the log of a recorded run gives the run.
-/

namespace Cadence

variable {σ ρ ε α : Type}

namespace Slot

def erase (slot : Slot (Marked σ) ρ) : Slot σ ρ := slot.onSystem Marked.system

end Slot

namespace Recorded

def eraseScheduler (s : Scheduler (Marked σ) ρ) : Scheduler σ ρ :=
  { settings := s.settings, slots := s.slots.map (·.map Slot.erase), names := s.names, nextId := s.nextId
    next := s.next, frame := s.frame, poisoned := s.poisoned, closed := s.closed }

/-- The engine that was recorded. -/
def erase (e : Recorded σ ρ ε) : Engine σ ρ ε :=
  { scheduler := eraseScheduler e.scheduler, world := e.world, screen := e.screen, host := e.host.1 }

end Recorded

/-! ### Recorded systems -/

namespace System

theorem recorded_notify (sys : System σ ρ ε) (event : Event) (c : Component) (s : Marked σ)
    (host : ε × List (Call ρ)) :
    sys.recorded.notify event c s host =
      let reply := sys.notify event c s.system host.1
      ⟨reply.outcome, { s with system := reply.system }, reply.host, host.2 ++ [.told s.id event reply.outcome]⟩ := by
  cases event <;> rfl

/-- Recorded systems do what the systems do. -/
theorem recorded_simulates (sys : System σ ρ ε) : Simulates sys.recorded sys Marked.system Prod.fst where
  name _ := rfl
  version _ := rfl
  init _ _ _ _ _ := rfl
  accepts _ _ := rfl
  added _ _ _ _ _ := rfl
  removed _ _ _ _ _ := rfl
  update _ _ _ _ := rfl
  updateSerial _ _ _ _ := rfl
  apply _ _ _ _ := rfl
  shutdown _ _ := rfl
  duplicate _ _ := rfl
  release _ _ := rfl
  byteSize _ := rfl

end System

/-! ### Recorded runs -/

namespace Engine

open Recorded

/-- What an operation answers, and the engine that was recorded in it. -/
def erased (r : Except EngineError α × Recorded σ ρ ε) : Except EngineError α × Engine σ ρ ε := (r.1, erase r.2)

theorem map_marked (op : Op σ) : op.marked.map Marked.system = op := by
  cases op <;> rfl

variable (sys : System σ ρ ε)

theorem recorded_handOff (result : Option ρ) (host : ε × List (Call ρ)) :
    sys.recorded.handOff result host =
      ((sys.handOff result host.1).1, (sys.handOff result host.1).2, host.2 ++
        match result with
        | none => []
        | some result => [.duplicate result (sys.duplicate result host.1).1, .release result]) := by
  cases result with
  | none => exact congrArg (fun log => (none, host.1, log)) (List.append_nil _).symm
  | some result =>
    have hlog : host.2 ++ [.duplicate result (sys.duplicate result host.1).1] ++ [.release result] =
        host.2 ++ [.duplicate result (sys.duplicate result host.1).1, .release result] := by simp
    exact congrArg (fun log => (some _, sys.release result (sys.duplicate result host.1).2, log)) hlog

theorem erased_perform (e : Recorded σ ρ ε) (op : Op σ) :
    erased (perform sys.recorded e op.marked) = perform sys (erase e) op := by
  have hperform := projected_perform sys.recorded_simulates e op.marked
  rw [map_marked] at hperform
  exact hperform

theorem erase_run (e : Recorded σ ρ ε) (ops : List (Op σ)) :
    erase (run sys.recorded e (ops.map Op.marked)) = run sys (erase e) ops := by
  have hrun := project_run sys.recorded_simulates e (ops.map Op.marked)
  have hops : (ops.map Op.marked).map (Op.map Marked.system) = ops := by simp [Function.comp_def, map_marked]
  rw [hops] at hrun
  exact hrun

/-- Nothing but the log tells a recorded run from the run. -/
theorem erase_record (settings : Settings.Scheduling) (screen : Screen) (host : ε) (ops : List (Op σ)) :
    erase (record sys settings screen host ops) = run sys (start settings screen host) ops :=
  erase_run sys (start settings screen (host, [])) ops

end Engine

end Cadence
