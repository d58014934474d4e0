import Cadence.Session.Host

/-!
An interpreter that follows a program: for each script it says which commands each call gives.
-/

namespace Cadence.Session

/-- A command for an entity, or for the scripted entity itself. -/
inductive Instruction
  | setPosition (target : Option (Ref Entity)) (x y : Float32)
  /-- To the position of the scripted entity, or the origin, plus an offset. -/
  | move (target : Option (Ref Entity)) (x y : Float32)
  | setVelocity (target : Option (Ref Entity)) (dx dy : Float32)
  | attachSprite (target : Option (Ref Entity)) (sprite : Sprite)
  | despawn (target : Option (Ref Entity))

/-- The instructions of each script for its first call, its second, and so on; the scripts that cannot be loaded and
the calls that fail. -/
structure Program where
  scripts : List (String × List (List Instruction))
  brokenScripts : List String := []
  brokenCalls : List Nat := []
  calls : Nat := 0

namespace Instruction

def target : Instruction → Option (Ref Entity)
  | setPosition e _ _ => e
  | move e _ _ => e
  | setVelocity e _ _ => e
  | attachSprite e _ => e
  | despawn e => e

/-- The command that an instruction means for a scripted entity. -/
def command (host : Host) (i : ScriptInstance) (instruction : Instruction) : Except String Command :=
  let target : Except String Entity := match instruction.target with
    | none => .ok i.entity
    | some ref => host.entity ref
  target.map fun e =>
    match instruction with
    | setPosition _ x y => .setPosition e x y
    | move _ x y =>
      let (x₀, y₀) := i.position.getD (0, 0)
      .setPosition e (x₀ + x) (y₀ + y)
    | setVelocity _ dx dy => .setVelocity e dx dy
    | attachSprite _ sprite => .attachSprite e sprite
    | despawn _ => .despawn e

end Instruction

namespace Program

/-- What a script has to do in a call, the calls being counted from one. -/
def instructions (p : Program) (script : String) (call : Nat) : List Instruction :=
  (((p.scripts.lookup script).getD [])[call - 1]?).getD []

def commands (p : Program) (host : Host) (instances : List ScriptInstance) : Except String (List Command) :=
  (instances.mapM fun i => (p.instructions i.script p.calls).mapM (Instruction.command host i)).map List.flatten

def respond (p : Program) (host : Host) (instances : List ScriptInstance) : Except Fault (List Command) :=
  if p.brokenCalls.contains p.calls then .error (.failed s!"call {p.calls} failed")
  else (p.commands host instances).mapError .failed

/-- Writes everything it does into the log. -/
def logging : Interpreter Program Host where
  load script p host :=
    let outcome := if p.brokenScripts.contains script then .error (.failed s!"cannot load {script}") else .ok ()
    ⟨outcome, p, host.note "script" (.load script)⟩
  call dt instances p host :=
    let p := { p with calls := p.calls + 1 }
    ⟨p.respond host instances, p, host.note "script" (.call dt instances)⟩
  unload script p host := (p, host.note "script" (.unload script))

/-- Only gives its commands. -/
def quiet : Interpreter Program Host where
  call _ instances p host :=
    let p := { p with calls := p.calls + 1 }
    ⟨(p.commands host instances).mapError .failed, p, host⟩

end Program

end Cadence.Session
