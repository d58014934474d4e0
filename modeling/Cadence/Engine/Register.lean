import Cadence.Engine.Routing

/-!
Registration and its end, the shutdown.
-/

namespace Cadence.Engine

variable {σ ρ ε : Type}

/-- Offers one attached component to a system. -/
def offer (sys : System σ ρ ε) (state : σ × ε) (item : Handle × Entity × Component) : Except Fault Unit × (σ × ε) :=
  let (s, host) := state
  let (h, owner, c) := item
  if sys.accepts s c then
    let reply := sys.added h owner c s host
    (reply.outcome, reply.system, reply.host)
  else (.ok (), s, host)

/-- Registers a system: it is initialised and then told of every component that is attached already, so that it knows
the same as one registered earlier. A system that fails after its initialisation is shut down again. -/
def register (sys : System σ ρ ε) (e : Engine σ ρ ε) (phase : Phase) (s : σ) : Except EngineError Nat × Engine σ ρ ε :=
  let name := sys.name s
  if e.scheduler.closed then (.error .shutDown, e)
  else if e.scheduler.names.contains name then (.error (.duplicateSystem name), e)
  else if !isApiCompatible (sys.version s) apiVersion then (.error (.incompatibleApi name (sys.version s)), e)
  else
    match deliver sys e with
    | (.error err, e) => (.error err, e)
    | (.ok _, e) =>
      let id := e.scheduler.nextId
      let reply := sys.init e.world phase id s e.host
      match reply.outcome with
      | .error fault => (.error (.initFailed name fault), { e with host := reply.host })
      | .ok () =>
        match inOrder (offer sys) (reply.system, reply.host) e.world.store.attached with
        | (.error fault, s, host) => (.error (.initFailed name fault), { e with host := sys.shutdown s host })
        | (.ok (), s, host) =>
          let slot : Slot σ ρ := { id, name, phase, system := s }
          (.ok id,
            { e with
              scheduler := { e.scheduler with
                slots := e.scheduler.slots.modify phase (· ++ [slot])
                names := e.scheduler.names ++ [name]
                nextId := id + 1 }
              host })

/-- Shuts all systems down, the one registered last first. -/
def shutdown (sys : System σ ρ ε) (e : Engine σ ρ ε) : Engine σ ρ ε :=
  if e.scheduler.closed then e
  else
    let slots := e.scheduler.allSlots.mergeSort fun a b => b.id ≤ a.id
    { e with
      scheduler := { e.scheduler with closed := true, slots := .const [], names := [] }
      host := slots.foldl (fun host slot => sys.shutdown slot.system host) e.host }

end Cadence.Engine
