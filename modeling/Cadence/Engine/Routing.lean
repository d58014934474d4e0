import Cadence.Engine.Basic

/-!
Routing: tells the systems which of the components they accept were attached and detached.
-/

namespace Cadence

variable {σ ρ ε : Type}

namespace System

/-- Calls the callback that an event is for. -/
def notify (sys : System σ ρ ε) (event : Event) (c : Component) (s : σ) (host : ε) : Reply σ ε Unit :=
  match event with
  | .attached h owner => sys.added h owner c s host
  | .detached h owner => sys.removed h owner c s host

/-- Tells the systems of a list that accept the component, up to the first that fails. -/
def notifyAll (sys : System σ ρ ε) (event : Event) (c : Component) :
    List (Slot σ ρ) → ε → Except EngineError Unit × List (Slot σ ρ) × ε
  | [], host => (.ok (), [], host)
  | slot :: rest, host =>
    if sys.accepts slot.system c then
      let reply := sys.notify event c slot.system host
      let slot := { slot with system := reply.system }
      match reply.outcome with
      | .error fault => (.error (.systemFailed slot.phase slot.name fault), slot :: rest, reply.host)
      | .ok () =>
        let (outcome, rest, host) := notifyAll sys event c rest reply.host
        (outcome, slot :: rest, host)
    else
      let (outcome, rest, host) := notifyAll sys event c rest host
      (outcome, slot :: rest, host)

/-- Tells the systems of all phases, up to the first that fails. -/
def notifyPhases (sys : System σ ρ ε) (event : Event) (c : Component) (slots : ByPhase (List (Slot σ ρ))) (host : ε) :
    Except EngineError Unit × ByPhase (List (Slot σ ρ)) × ε :=
  match sys.notifyAll event c slots.early host with
  | (.error e, early, host) => (.error e, { slots with early }, host)
  | (.ok (), early, host) =>
    match sys.notifyAll event c slots.script host with
    | (.error e, script, host) => (.error e, { slots with early, script }, host)
    | (.ok (), script, host) =>
      let (outcome, late, host) := sys.notifyAll event c slots.late host
      (outcome, ⟨early, script, late⟩, host)

end System

namespace Engine

/-- Routes one event. An event about a component that has been released already is passed over. -/
def route (sys : System σ ρ ε) (e : Engine σ ρ ε) (event : Event) : Except EngineError Unit × Engine σ ρ ε :=
  match e.world.store.get? event.handle with
  | none => (.ok (), e)
  | some c =>
    let (outcome, slots, host) := sys.notifyPhases event c e.scheduler.slots e.host
    (outcome, { e with scheduler := { e.scheduler with slots }, host })

/-- Routes all events that the world has queued and counts them. After a failure the systems no longer agree with the
world, so the scheduler is poisoned. -/
def deliver (sys : System σ ρ ε) (e : Engine σ ρ ε) : Except EngineError Nat × Engine σ ρ ε :=
  let (events, world) := e.world.drain
  match inOrder (route sys) { e with world } events.toList with
  | (.error err, e) => (.error err, { e with scheduler := { e.scheduler with poisoned := true } })
  | (.ok (), e) => (.ok events.size, e)

end Engine

end Cadence
