import Cadence.Engine.Op
import Cadence.Session.Cast
import Cadence.Session.ScreenOp

/-!
Sessions: operations carried out one after the other on an engine, with everything its systems log on the way.
-/

namespace Cadence.Session

inductive Op
  | world (op : WorldOp)
  | register (phase : String) (system : Cast)
  | runFrame (dt : Float32)
  /-- Without `parallel` the settings decide. -/
  | runPhase (phase : String) (dt : Float32) (parallel : Option Bool)
  | endFrame
  | shutdown
  | systems
  | systemId (name : String)
  | phaseOf (id : Nat)
  /-- Asks for the view of a system in a role; `none` is a role that no system has. -/
  | inspect (id : Nat) (role : Option Cast.Role)
  | setCamera (id : Nat) (camera : Camera)
  | screen (op : ScreenOp)
  | subscribe
  | settings
  | frame
  | spawn (persistent : Bool)
  | attach (entity : Ref Entity) (component : Component)
  | detach (handle : Ref Handle)
  | mark (entity : Ref Entity)
  | clear (persistentToo : Bool)
  | deliver
  | route (attached : Bool) (handle : Ref Handle) (entity : Ref Entity)
  | unknown (word : String)

inductive Answer
  | nothing
  | flag (value : Bool)
  | count (value : Nat)
  | engine (answer : Engine.Answer)
  | world (answer : World.Answer)
  | screen (answer : ScreenAnswer)
  | systems (names : List (List String))
  | id (value : Option Nat)
  | phaseOf (value : Option Phase)
  | view (value : Option Cast.View)
  | settings (value : Settings)

/-- Why an operation came to nothing. -/
inductive Failure
  | badInput (text : String)
  | world (error : WorldError)
  | engine (error : EngineError)

structure State where
  engine : Engine Cast Cast.Result Host
  settings : Settings

namespace State

/-- Remembers what an operation of the engine has brought about. -/
def remember (s : State) (answer : Engine.Answer) : State :=
  let host := match answer with
    | .entity e => s.engine.host.remember (.entity e)
    | .handle h => s.engine.host.remember (.handle h)
    | _ => s.engine.host
  { s with engine := { s.engine with host } }

/-- Does an operation of the engine. -/
def act (s : State) (op : Engine.Op Cast) : Except Failure Answer × State :=
  match Engine.perform Cast.system s.engine op with
  | (.error e, engine) => (.error (.engine e), { s with engine })
  | (.ok answer, engine) => (.ok (.engine answer), { s with engine }.remember answer)

/-- Does something with a reference once it is resolved. -/
def resolved {α : Type} (s : State) (ref : Except String α) (op : α → Except Failure Answer × State) :
    Except Failure Answer × State :=
  match ref with
  | .error text => (.error (.badInput text), s)
  | .ok a => op a

/-- Does something in the phase that a text names. -/
def inPhase (s : State) (text : String) (op : Phase → Except Failure Answer × State) : Except Failure Answer × State :=
  match Phase.ofName? text with
  | none => (.error (.engine (.unknownPhase text)), s)
  | some phase => op phase

/-- Does something with the number of a system that has been registered. -/
def registered (s : State) (id : Nat) (op : Except Failure Answer × State) : Except Failure Answer × State :=
  if id < s.engine.scheduler.nextId then op else (.error (.badInput "no such system"), s)

def perform (s : State) : Op → Except Failure Answer × State
  | .world op =>
    let (outcome, world, host) := op.perform s.engine.host s.engine.world
    let outcome := match outcome with
      | .ok answer => .ok (.world answer)
      | .error (.badInput text) => .error (.badInput text)
      | .error (.world e) => .error (.world e)
    (outcome, { s with engine := { s.engine with world, host } })
  | .register phase system => s.inPhase phase fun phase => s.act (.register phase system)
  | .runFrame dt => s.act (.runFrame dt)
  | .runPhase phase dt parallel => s.inPhase phase fun phase =>
    s.act (.runPhase phase dt (parallel.getD (s.engine.scheduler.settings.parallel.get phase)))
  | .endFrame => s.act .endFrame
  | .shutdown => s.act .shutdown
  | .systems => (.ok (.systems (Phase.all.map s.engine.scheduler.namesIn)), s)
  | .systemId name => (.ok (.id (s.engine.scheduler.systemId? name)), s)
  | .phaseOf id => s.registered id (.ok (.phaseOf (s.engine.scheduler.phaseOf? id)), s)
  | .inspect id role =>
    let view := (s.engine.scheduler.slot? id).bind fun slot => role.bind slot.system.viewAs
    s.registered id (.ok (.view view), s)
  | .setCamera id camera =>
    let isPainter := match s.engine.scheduler.slot? id with
      | some slot => slot.system.role = .painter
      | none => false
    let scheduler := s.engine.scheduler.modifySystem id (Cast.setCamera camera)
    s.registered id (.ok (.flag isPainter), { s with engine := { s.engine with scheduler } })
  | .screen op =>
    let (outcome, screen) := op.perform s.engine.host s.engine.screen
    ((outcome.map .screen).mapError .badInput, { s with engine := { s.engine with screen } })
  | .subscribe =>
    let screen := s.engine.screen.subscribe
    (.ok (.count screen.subscriberCount), { s with engine := { s.engine with screen } })
  | .settings => (.ok (.settings s.settings), s)
  | .frame => (.ok (.count s.engine.scheduler.frame), s)
  | .spawn persistent => s.act (.spawn persistent)
  | .attach entity c => s.resolved (s.engine.host.entity entity) fun entity => s.act (.attach entity c)
  | .detach handle => s.resolved (s.engine.host.handle handle) fun h => s.act (.detach h)
  | .mark entity => s.resolved (s.engine.host.entity entity) fun entity => s.act (.mark entity)
  | .clear persistentToo => s.act (.clear persistentToo)
  | .deliver => s.act .deliver
  | .route attached handle entity => s.resolved (s.engine.host.handle handle) fun h =>
    s.resolved (s.engine.host.entity entity) fun entity =>
      match s.act (.route (if attached then .attached h entity else .detached h entity)) with
      | (.ok _, s) => (.ok (.world (.handle h)), s)
      | failed => failed
  | .unknown word => (.error (.badInput (unknownOp word)), s)

/-- What has been logged since the log was emptied last, and the state with an empty log. -/
def takeLog (s : State) : Array LogEntry × State :=
  (s.engine.host.log, { s with engine := { s.engine with host := { s.engine.host with log := #[] } } })

end State

/-- What one operation has come to: its result, what was logged, and the state it leaves. -/
structure Outcome where
  result : Except Failure Answer
  log : Array LogEntry
  after : State

def run (s : State) : List Op → List Outcome × State
  | [] => ([], s)
  | op :: rest =>
    let (result, s) := s.perform op
    let (log, s) := s.takeLog
    let (outcomes, last) := run s rest
    (⟨result, log, s⟩ :: outcomes, last)

/-- Runs the operations and shuts the systems down at the end. -/
def play (s : State) (ops : List Op) : List Outcome × Array LogEntry :=
  let (outcomes, last) := run s ops
  (outcomes, (Engine.shutdown Cast.system last.engine).host.log)

end Cadence.Session
