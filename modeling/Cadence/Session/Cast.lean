import Cadence.Session.Probe
import Cadence.Session.Program
import Cadence.Session.Ticker
import Cadence.System.BuiltIn

/-!
All systems that a session can register.
-/

namespace Cadence.Session

abbrev Cast : Type := BuiltIn Program ⊕ Scripts Program ⊕ Ticker ⊕ Probe

namespace Cast

abbrev Result : Type := BuiltIn.Result ⊕ List Command ⊕ Ticker.Parcel ⊕ Parcel

def system : System Cast Result Host :=
  (BuiltIn.system Program.logging).sum
    ((Scripts.system Program.quiet).sum ((Ticker.system Host).sum Probe.system))

/-! ### The members of the cast -/

@[match_pattern] abbrev motion (m : Motion) : Cast := .inl (.inl m)

@[match_pattern] abbrev boxes (b : Boxes) : Cast := .inl (.inr (.inl b))

@[match_pattern] abbrev painter (p : Painter) : Cast := .inl (.inr (.inr (.inl p)))

@[match_pattern] abbrev script (s : Scripts Program) : Cast := .inl (.inr (.inr (.inr s)))

@[match_pattern] abbrev closure (s : Scripts Program) : Cast := .inr (.inl s)

@[match_pattern] abbrev ticker (t : Ticker) : Cast := .inr (.inr (.inl t))

@[match_pattern] abbrev probe (p : Probe) : Cast := .inr (.inr (.inr p))

/-! ### Inspection -/

/-- The roles a member can be asked for. -/
inductive Role
  | motion
  | boxes
  | painter
  | script
  | closure
  | ticker (make : Ticker.Make)
  | probe
  deriving DecidableEq

/-- What can be seen of a member from outside. -/
inductive View
  | motion (tracked : Nat)
  | boxes
  | painter (tracked culled : Nat)
  | script (loaded : List (String × Nat)) (calls : Nat)
  | closure (loaded : List (String × Nat))
  | ticker (updates : Nat)
  | probe (entries : Array Index.Entry) (counts : Probe.Counts)

def role : Cast → Role
  | motion _ => .motion
  | boxes _ => .boxes
  | painter _ => .painter
  | script _ => .script
  | closure _ => .closure
  | ticker t => .ticker t.make
  | probe _ => .probe

def view : Cast → View
  | motion m => .motion m.velocities.size
  | boxes _ => .boxes
  | painter p => .painter p.sprites.size p.culled
  | script s => .script s.usage.counts s.interpreter.calls
  | closure s => .closure s.usage.counts
  | ticker t => .ticker t.updates
  | probe p => .probe p.index.entries p.counts

/-- The view of a member in the role that it was asked for. -/
def viewAs (c : Cast) (role : Role) : Option View := if c.role = role then some c.view else none

/-- Gives a painter another camera; others have none. -/
def setCamera (camera : Camera) : Cast → Cast
  | painter p => painter { p with camera }
  | c => c

end Cast

end Cadence.Session
