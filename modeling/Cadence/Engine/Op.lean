import Cadence.Engine.Frame
import Cadence.Engine.Register
import Cadence.World.Edit

/-!
The operations of an engine as data.
-/

namespace Cadence.Engine

variable {σ ρ ε : Type}

/-- Does something to the world and routes what it has changed at once. -/
def immediately {α : Type} (sys : System σ ρ ε) (e : Engine σ ρ ε) (op : World → Except WorldError α × World) :
    Except EngineError α × Engine σ ρ ε :=
  match op e.world with
  | (.error err, world) => (.error (.world err), { e with world })
  | (.ok a, world) =>
    match deliver sys { e with world } with
    | (.error err, e) => (.error err, e)
    | (.ok _, e) => (.ok a, e)

/-- What `edit` does to the world is routed before the next phase; the other changes are routed at once. -/
inductive Op (σ : Type)
  | register (phase : Phase) (system : σ)
  | spawn (persistent : Bool)
  | attach (entity : Entity) (component : Component)
  | detach (handle : Handle)
  | mark (entity : Entity)
  | clear (persistentToo : Bool)
  | edit (edit : World.Edit Entity Handle)
  | runPhase (phase : Phase) (dt : Float32) (parallel : Bool)
  | endFrame
  | runFrame (dt : Float32)
  | deliver
  | route (event : Event)
  | shutdown

inductive Answer
  | nothing
  | registered (id : Nat)
  | entity (entity : Entity)
  | handle (handle : Handle)
  | flag (value : Bool)
  | count (value : Nat)
  | edited (result : Except WorldError World.Answer)
  | phase (report : PhaseReport)
  | ended (presented : Notice) (flushed : Flushed)
  | frame (report : FrameReport)

/-- Maps the result of an operation to an answer. -/
def answered {α : Type} (f : α → Answer) (r : Except EngineError α × Engine σ ρ ε) :
    Except EngineError Answer × Engine σ ρ ε :=
  (r.1.map f, r.2)

def perform (sys : System σ ρ ε) (e : Engine σ ρ ε) : Op σ → Except EngineError Answer × Engine σ ρ ε
  | .register phase s => answered .registered (register sys e phase s)
  | .spawn persistent =>
    let (entity, world) := e.world.spawn persistent
    (.ok (.entity entity), { e with world })
  | .attach entity c => answered .handle (immediately sys e (·.attach entity c))
  | .detach h => answered .flag (immediately sys e (·.detach h))
  | .mark entity => answered .flag (immediately sys e (·.mark entity))
  | .clear persistentToo => answered .count (immediately sys e (·.clear persistentToo))
  | .edit edit =>
    let (result, world) := e.world.perform edit
    (.ok (.edited result), { e with world })
  | .runPhase phase dt parallel => answered .phase (runPhase sys e phase dt parallel)
  | .endFrame => answered (fun (presented, flushed) => .ended presented flushed) (endFrame sys e)
  | .runFrame dt => answered .frame (runFrame sys e dt)
  | .deliver => answered .count (deliver sys e)
  | .route event => answered (fun _ => .nothing) (route sys e event)
  | .shutdown => (.ok .nothing, shutdown sys e)

end Cadence.Engine
