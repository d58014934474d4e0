import Cadence.InOrder
import Cadence.System.Basic
import Cadence.System.Scripts.Usage

/-!
Runs the scripts of entities in an interpreter. A script is loaded with its first user and unloaded with its last;
each frame the interpreter sees all scripted entities at once and answers with commands, which are carried out
after the update.
-/

namespace Cadence

/-- What an interpreter sees of a scripted entity. -/
structure ScriptInstance where
  entity : Entity
  script : String
  position : Option (Float32 × Float32)
  velocity : Option (Float32 × Float32)

inductive Command
  | setPosition (entity : Entity) (x y : Float32)
  | setVelocity (entity : Entity) (dx dy : Float32)
  | despawn (entity : Entity)
  | attachSprite (entity : Entity) (sprite : Sprite)

namespace Command

def entity : Command → Entity
  | setPosition e _ _ => e
  | setVelocity e _ _ => e
  | despawn e => e
  | attachSprite e _ => e

/-- Writes `data` to the first component of kind `k` on a live entity, or attaches a new one. -/
def assign (w : World) (e : Entity) (k : Kind) (change : k.Data → k.Data) (fresh : k.Data) :
    Except WorldError Unit × World :=
  match w.first? k e with
  | some (h, _) => w.modify k h change
  | none =>
    let (r, w) := w.attach e ⟨k, fresh⟩
    (r.map fun _ => (), w)

/-- Carries out one command; commands for entities that are not live are passed over. -/
def run (w : World) (command : Command) : Except WorldError Unit × World :=
  if w.isLive command.entity then
    match command with
    | setPosition e x y => assign w e .transform (·.moveTo x y) { x, y }
    | setVelocity e dx dy => assign w e .velocity (fun _ => { dx, dy }) { dx, dy }
    | despawn e =>
      let (r, w) := w.mark e
      (r.map fun _ => (), w)
    | attachSprite e sprite =>
      let (r, w) := w.attach e ⟨.sprite, sprite⟩
      (r.map fun _ => (), w)
  else (.ok (), w)

def runAll (w : World) (commands : List Command) : Except WorldError Unit × World :=
  inOrder run w commands

end Command

/-- The callbacks of interpreters with states in `τ`. -/
structure Interpreter (τ ε : Type) where
  load : String → τ → ε → Reply τ ε Unit := fun _ s host => ⟨.ok (), s, host⟩
  call : Float32 → List ScriptInstance → τ → ε → Reply τ ε (List Command)
  unload : String → τ → ε → τ × ε := fun _ s host => (s, host)

structure Scripts (τ : Type) where
  interpreter : τ
  attachments : Index := {}
  usage : Usage := {}

namespace Scripts

variable {τ ε : Type}

/-- One more user of a script, which is loaded if it had none. -/
def addUser (I : Interpreter τ ε) (h : Handle) (owner : Entity) (script : String) (s : Scripts τ) (host : ε) :
    Reply (Scripts τ) ε Unit :=
  let users := (s.usage.count? script).getD 0
  let loaded : Reply τ ε Unit :=
    if users = 0 then I.load script s.interpreter host else ⟨.ok (), s.interpreter, host⟩
  let s := { s with interpreter := loaded.system }
  match loaded.outcome with
  | .error fault => ⟨.error fault, s, loaded.host⟩
  | .ok () =>
    let s := { s with usage := s.usage.set script (users + 1), attachments := (s.attachments.insert h owner).2 }
    ⟨.ok (), s, loaded.host⟩

/-- One user of a script less; after the last one it is unloaded. -/
def dropUser (I : Interpreter τ ε) (script : String) (s : Scripts τ) (host : ε) : Scripts τ × ε :=
  match s.usage.count? script with
  | none => (s, host)
  | some users =>
    if users - 1 = 0 then
      let (interpreter, host) := I.unload script s.interpreter host
      ({ s with interpreter, usage := s.usage.erase script }, host)
    else ({ s with usage := s.usage.set script (users - 1) }, host)

/-- What the interpreter sees of one entry of the index. -/
def instanceOf (w : World) (entry : Index.Entry) : Except WorldError ScriptInstance :=
  (w.component .script entry.handle).map fun script =>
    { entity := entry.owner
      script := script.name
      position := (w.first? .transform entry.owner).map fun (_, t) => (t.x, t.y)
      velocity := (w.first? .velocity entry.owner).map fun (_, v) => (v.dx, v.dy) }

def instances (s : Scripts τ) (w : World) : Except WorldError (List ScriptInstance) :=
  s.attachments.entries.toList.mapM (instanceOf w)

/-- Calls the interpreter, unless there is nothing to run. -/
def call (I : Interpreter τ ε) (w : World) (dt : Float32) (s : Scripts τ) (host : ε) :
    Reply (Scripts τ) ε (Option (List Command)) :=
  if s.attachments.isEmpty then ⟨.ok none, s, host⟩
  else
    match s.instances w with
    | .error e => ⟨.error (.world e), s, host⟩
    | .ok instances =>
      let called := I.call dt instances s.interpreter host
      called.map (fun interpreter => { s with interpreter }) fun commands =>
        if commands.isEmpty then none else some commands

/-- Unloads every script that is loaded. -/
def unloadAll (I : Interpreter τ ε) (s : Scripts τ) (host : ε) : ε :=
  (s.usage.scripts.foldl (fun (state : τ × ε) script => I.unload script state.1 state.2) (s.interpreter, host)).2

def system (I : Interpreter τ ε) : System (Scripts τ) (List Command) ε where
  name _ := "script"
  accepts _ c := c.kind == .script
  added h owner c s host :=
    match c.as .script with
    | none => ⟨.error (.missingComponent h), s, host⟩
    | some script => addUser I h owner script.name s host
  removed h _ c s host :=
    match s.attachments.remove h with
    | (none, _) => ⟨.ok (), s, host⟩
    | (some _, attachments) =>
      let s := { s with attachments }
      match c.as .script with
      | none => ⟨.ok (), s, host⟩
      | some script =>
        let (s, host) := dropUser I script.name s host
        ⟨.ok (), s, host⟩
  update ctx dt s host := { call I ctx.world dt s host with }
  apply commands ctx s host :=
    let (outcome, world) := Command.runAll ctx.world commands
    { outcome := outcome.mapError .world, system := s, host, world }
  shutdown := unloadAll I
  byteSize commands := vectorBytes 40 commands.length

end Scripts

end Cadence
