import Cadence.Engine.Routing

/-!
A phase: first every system of the phase is updated, then the results are applied, both in the order of registration.
On one thread an update may write to the world, and what it changes is routed before the next update. On workers the
updates see one and the same world, and all of them are made even if one fails.
-/

namespace Cadence

/-- What a phase has done. -/
structure PhaseReport where
  phase : Phase
  updated : Nat
  applied : Nat
  bytes : Nat
  parallel : Bool
  deriving DecidableEq, Inhabited

namespace Engine

variable {σ ρ ε : Type}

/-- The outcome of an operation with its value dropped. -/
def ignore {α : Type} (r : Except EngineError α × Engine σ ρ ε) : Except EngineError Unit × Engine σ ρ ε :=
  (r.1.map fun _ => (), r.2)

/-- Updates the system at a position of the phase on this thread and routes what it has changed. -/
def updateSerial (sys : System σ ρ ε) (phase : Phase) (dt : Float32) (e : Engine σ ρ ε) (i : Nat) :
    Except EngineError Unit × Engine σ ρ ε :=
  match e.slotAt? phase i with
  | none => (.ok (), e)
  | some slot =>
    let reply := sys.updateSerial (e.context phase false) dt slot.system e.host
    let e := { e with world := reply.world, host := reply.host }.draw phase reply.drawn
    let e := e.modifySlot phase i ({ · with system := reply.system })
    match reply.outcome with
    | .error fault => (.error (.systemFailed phase slot.name fault), e)
    | .ok result => ignore (deliver sys (e.modifySlot phase i ({ · with pending := result })))

/-- Updates the system at a position of the phase on a worker. Its result is duplicated and then released.
Of several failures the first is kept. -/
def updateParallel (sys : System σ ρ ε) (phase : Phase) (dt : Float32) (state : Option EngineError × Engine σ ρ ε)
    (i : Nat) : Option EngineError × Engine σ ρ ε :=
  let (failure, e) := state
  match e.slotAt? phase i with
  | none => (failure, e)
  | some slot =>
    let reply := sys.update (e.context phase true) dt slot.system e.host
    let e := { e with host := reply.host }.draw phase reply.drawn
    let e := e.modifySlot phase i ({ · with system := reply.system })
    match reply.outcome with
    | .error fault => (failure.or (some (.systemFailed phase slot.name fault)), e)
    | .ok none => (failure, e.modifySlot phase i ({ · with pending := none }))
    | .ok (some result) =>
      let (copy, host) := sys.duplicate result e.host
      (failure, { e with host := sys.release result host }.modifySlot phase i ({ · with pending := some copy }))

/-- Updates all systems of a phase. -/
def updateAll (sys : System σ ρ ε) (phase : Phase) (dt : Float32) (parallel : Bool) (e : Engine σ ρ ε) :
    Except EngineError Unit × Engine σ ρ ε :=
  let positions := List.range (e.scheduler.slots.get phase).length
  if parallel then
    match positions.foldl (updateParallel sys phase dt) (none, e) with
    | (some err, e) => (.error err, e)
    | (none, e) => (.ok (), e)
  else inOrder (updateSerial sys phase dt) e positions

/-- The results applied so far, and their bytes. -/
structure Applied (σ ρ ε : Type) where
  engine : Engine σ ρ ε
  count : Nat := 0
  bytes : Nat := 0

/-- Applies the result that waits at a position of the phase, if there is one, and routes what that changes. -/
def applyResult (sys : System σ ρ ε) (phase : Phase) (a : Applied σ ρ ε) (i : Nat) :
    Except EngineError Unit × Applied σ ρ ε :=
  match a.engine.slotAt? phase i with
  | none => (.ok (), a)
  | some slot =>
    match slot.pending with
    | none => (.ok (), a)
    | some result =>
      let e := a.engine.modifySlot phase i ({ · with pending := none })
      let reply := sys.apply result (e.context phase false) slot.system e.host
      let e := { e with world := reply.world, host := reply.host }.draw phase reply.drawn
      let e := e.modifySlot phase i ({ · with system := reply.system })
      match reply.outcome with
      | .error fault => (.error (.systemFailed phase slot.name fault), { a with engine := e })
      | .ok () =>
        let (outcome, e) := ignore (deliver sys e)
        (outcome, ⟨e, a.count + 1, a.bytes + sys.byteSize result⟩)

/-- Applies all results of a phase. -/
def applyAll (sys : System σ ρ ε) (phase : Phase) (e : Engine σ ρ ε) : Except EngineError Unit × Applied σ ρ ε :=
  inOrder (applyResult sys phase) { engine := e } (List.range (e.scheduler.slots.get phase).length)

/-- What a phase does once it may run. -/
def phaseBody (sys : System σ ρ ε) (phase : Phase) (dt : Float32) (parallel : Bool) (e : Engine σ ρ ε) :
    Except EngineError PhaseReport × Engine σ ρ ε :=
  match deliver sys e with
  | (.error err, e) => (.error err, e)
  | (.ok _, e) =>
    let updated := (e.scheduler.slots.get phase).length
    match updateAll sys phase dt parallel e with
    | (.error err, e) => (.error err, e)
    | (.ok (), e) =>
      match applyAll sys phase e with
      | (.error err, a) => (.error err, a.engine)
      | (.ok (), a) => (.ok ⟨phase, updated, a.count, a.bytes, parallel⟩, a.engine)

/-- The early phase begins a new frame. -/
def beginPhase (phase : Phase) (e : Engine σ ρ ε) : Engine σ ρ ε :=
  if phase = .early then { e with scheduler := { e.scheduler with frame := e.scheduler.frame + 1 } } else e

/-- Runs a phase, if it is the next step of the frame. -/
def runPhase (sys : System σ ρ ε) (e : Engine σ ρ ε) (phase : Phase) (dt : Float32) (parallel : Bool) :
    Except EngineError PhaseReport × Engine σ ρ ε :=
  match e.scheduler.check (.phase phase) with
  | .error err => (.error err, e)
  | .ok () =>
    match phaseBody sys phase dt parallel (e.beginPhase phase) with
    | (.error err, e) => (.error err, e.abort phase)
    | (.ok report, e) => (.ok report, { e with scheduler := { e.scheduler with next := e.scheduler.next.next } })

end Engine

end Cadence
