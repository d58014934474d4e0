import Cadence.Proofs.Engine.Run

/-!
Systems that write down the calls they get, so that what happens in a run can be said of the log it leaves.
-/

namespace Cadence

variable {σ ρ ε : Type}

/-- A call that lets a system see the frame: who was called, what it saw and drew, the world it left and what came
of it. -/
structure Visit (α : Type) where
  id : Nat
  context : Context
  drawn : Array Primitive
  world : World
  outcome : Except Fault α

/-- A call of a callback. -/
inductive Call (ρ : Type)
  | init (id : Nat) (outcome : Except Fault Unit)
  | told (id : Nat) (event : Event) (outcome : Except Fault Unit)
  | update (visit : Visit (Option ρ))
  | duplicate (result copy : ρ)
  | release (result : ρ)
  | apply (result : ρ) (visit : Visit Unit)
  | shutdown (id : Nat)

/-- A system together with the id it got when it was initialised. -/
structure Marked (σ : Type) where
  system : σ
  id : Nat := 0

namespace System

/-- The same systems, writing down their calls in a log beside the host. -/
def recorded (sys : System σ ρ ε) : System (Marked σ) ρ (ε × List (Call ρ)) where
  name s := sys.name s.system
  version s := sys.version s.system
  init world phase id s host :=
    let reply := sys.init world phase id s.system host.1
    ⟨reply.outcome, ⟨reply.system, id⟩, reply.host, host.2 ++ [.init id reply.outcome]⟩
  accepts s := sys.accepts s.system
  added h owner c s host :=
    let reply := sys.added h owner c s.system host.1
    ⟨reply.outcome, { s with system := reply.system }, reply.host,
      host.2 ++ [.told s.id (.attached h owner) reply.outcome]⟩
  removed h owner c s host :=
    let reply := sys.removed h owner c s.system host.1
    ⟨reply.outcome, { s with system := reply.system }, reply.host,
      host.2 ++ [.told s.id (.detached h owner) reply.outcome]⟩
  update ctx dt s host :=
    let reply := sys.update ctx dt s.system host.1
    { outcome := reply.outcome
      system := { s with system := reply.system }
      host := (reply.host, host.2 ++ [.update ⟨s.id, ctx, reply.drawn, ctx.world, reply.outcome⟩])
      drawn := reply.drawn }
  updateSerial ctx dt s host :=
    let reply := sys.updateSerial ctx dt s.system host.1
    { outcome := reply.outcome
      system := { s with system := reply.system }
      host := (reply.host, host.2 ++ [.update ⟨s.id, ctx, reply.drawn, reply.world, reply.outcome⟩])
      drawn := reply.drawn
      world := reply.world }
  apply result ctx s host :=
    let reply := sys.apply result ctx s.system host.1
    { outcome := reply.outcome
      system := { s with system := reply.system }
      host := (reply.host, host.2 ++ [.apply result ⟨s.id, ctx, reply.drawn, reply.world, reply.outcome⟩])
      drawn := reply.drawn
      world := reply.world }
  shutdown s host := (sys.shutdown s.system host.1, host.2 ++ [.shutdown s.id])
  duplicate result host :=
    let (copy, left) := sys.duplicate result host.1
    (copy, left, host.2 ++ [.duplicate result copy])
  release result host := (sys.release result host.1, host.2 ++ [.release result])
  byteSize := sys.byteSize

end System

/-- An engine whose systems are recorded. -/
abbrev Recorded (σ ρ ε : Type) := Engine (Marked σ) ρ (ε × List (Call ρ))

namespace Engine

def log (e : Recorded σ ρ ε) : List (Call ρ) := e.host.2

/-- A system that is about to be registered has no id yet. -/
def Op.marked : Op σ → Op (Marked σ)
  | register phase s => register phase ⟨s, 0⟩
  | spawn persistent => spawn persistent
  | attach entity c => attach entity c
  | detach h => detach h
  | mark entity => mark entity
  | clear persistentToo => clear persistentToo
  | edit change => edit change
  | runPhase phase dt parallel => runPhase phase dt parallel
  | endFrame => endFrame
  | runFrame dt => runFrame dt
  | deliver => deliver
  | route event => route event
  | shutdown => shutdown

/-- A run whose calls are written down, from an engine in which nothing has happened yet. -/
def record (sys : System σ ρ ε) (settings : Settings.Scheduling) (screen : Screen) (host : ε) (ops : List (Op σ)) :
    Recorded σ ρ ε :=
  run sys.recorded (start settings screen (host, [])) (ops.map Op.marked)

theorem record_append (sys : System σ ρ ε) (settings : Settings.Scheduling) (screen : Screen) (host : ε)
    (ops ops' : List (Op σ)) :
    record sys settings screen host (ops ++ ops') =
      run sys.recorded (record sys settings screen host ops) (ops'.map Op.marked) := by
  rw [record, List.map_append, run_append]
  rfl

end Engine

end Cadence
