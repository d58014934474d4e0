import Cadence.Engine.Phase

/-!
Frames: three phases and an end, at which the screen is flipped and the world flushed.
-/

namespace Cadence

/-- What a frame has done. -/
structure FrameReport where
  frame : Nat
  phases : List PhaseReport
  presented : Notice
  flushed : Flushed
  deriving DecidableEq, Inhabited

namespace Engine

variable {σ ρ ε : Type}

/-- Ends the frame, if its phases are done. -/
def endFrame (sys : System σ ρ ε) (e : Engine σ ρ ε) : Except EngineError (Notice × Flushed) × Engine σ ρ ε :=
  match e.scheduler.check .endOfFrame with
  | .error err => (.error err, e)
  | .ok () =>
    match deliver sys e with
    | (.error err, e) => (.error err, e.abort .late)
    | (.ok _, e) =>
      let (notice, screen) := e.screen.flip
      let (flushed, world) := e.world.flush
      (.ok (notice, flushed),
        { e with
          scheduler := { e.scheduler with next := e.scheduler.next.next }
          world
          screen := screen.clearActive })

/-- Runs phases one after the other, each as the settings say. -/
def runPhases (sys : System σ ρ ε) (e : Engine σ ρ ε) (dt : Float32) :
    List Phase → Except EngineError (List PhaseReport) × Engine σ ρ ε
  | [] => (.ok [], e)
  | phase :: rest =>
    match runPhase sys e phase dt (e.scheduler.settings.parallel.get phase) with
    | (.error err, e) => (.error err, e)
    | (.ok report, e) =>
      let (outcome, e) := runPhases sys e dt rest
      (outcome.map (report :: ·), e)

/-- Runs a whole frame. -/
def runFrame (sys : System σ ρ ε) (e : Engine σ ρ ε) (dt : Float32) : Except EngineError FrameReport × Engine σ ρ ε :=
  match runPhases sys e dt Phase.all with
  | (.error err, e) => (.error err, e)
  | (.ok phases, e) =>
    match endFrame sys e with
    | (.error err, e) => (.error err, e)
    | (.ok (presented, flushed), e) => (.ok ⟨e.scheduler.frame, phases, presented, flushed⟩, e)

end Engine

end Cadence
