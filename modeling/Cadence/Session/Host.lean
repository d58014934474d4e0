import Cadence.System.Scripts.Basic
import Cadence.World.Edit

/-!
What the systems of a session share: a log, and lists of the entities spawned and the handles issued so far, to which
the operations of a session refer by number.
-/

namespace Cadence.Session

/-- A thing given as it is, or by its number in a list of earlier ones. Numbers beyond the list start over. -/
inductive Ref (α : Type)
  | literal (value : α)
  | nth (n : Nat)

/-- What an action of a probe has come to. -/
inductive Deed
  | nothing
  | text (value : String)
  | count (value : Nat)
  | entries (values : Array Index.Entry)
  | world (answer : World.Answer)
  | fault (fault : Fault)

/-- What is logged. -/
inductive Note
  | init (phase : Phase) (id : Nat) (liveCount : Nat)
  | added (handle : Handle) (owner : Entity) (kind : Kind)
  | removed (handle : Handle) (owner : Entity) (kind : Kind) (known : Bool)
  | update (phase : Phase) (frame : Nat) (parallel : Bool) (dt : Float32)
  | serial (phase : Phase) (frame : Nat) (dt : Float32)
  | duplicate
  | release
  | apply (phase : Phase) (frame : Nat)
  | did (action : String) (deed : Deed)
  | shutdown
  | load (script : String)
  | call (dt : Float32) (instances : List ScriptInstance)
  | unload (script : String)

/-- A note and the name of the system it is from. -/
structure LogEntry where
  source : String
  note : Note

structure Host where
  log : Array LogEntry := #[]
  spawned : Array Entity := #[]
  issued : Array Handle := #[]
  deriving Inhabited

namespace Host

def note (host : Host) (source : String) (note : Note) : Host := { host with log := host.log.push ⟨source, note⟩ }

/-- Finds what a reference means in a list. -/
def lookup {α : Type} (list : Array α) (missing : String) : Ref α → Except String α
  | .literal a => .ok a
  | .nth n =>
    match list[n % list.size]? with
    | some a => .ok a
    | none => .error missing

def entity (host : Host) (ref : Ref Entity) : Except String Entity := lookup host.spawned "no entity yet" ref

def handle (host : Host) (ref : Ref Handle) : Except String Handle := lookup host.issued "no handle yet" ref

/-- Remembers what a change to the world has brought about. -/
def remember (host : Host) : World.Answer → Host
  | .entity e => { host with spawned := host.spawned.push e }
  | .handle h => { host with issued := host.issued.push h }
  | _ => host

end Host

/-- A primitive whose source is given by a reference. -/
structure Sketch where
  source : Option (Ref Entity) := none
  primitive : Primitive

namespace Sketch

def resolve (host : Host) (s : Sketch) : Except String Primitive :=
  match s.source with
  | none => .ok s.primitive
  | some ref => (host.entity ref).map fun e => { s.primitive with source := some e }

end Sketch

end Cadence.Session
