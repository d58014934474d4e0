import Cadence.Index
import Cadence.Phase
import Cadence.Version
import Cadence.Drawing.Screen
import Cadence.World.Basic

/-!
The contract between the scheduler and its systems. A system keeps a state in `σ`; what an update cannot write itself
it hands back as a result in `ρ`, which is applied once all updates of the phase are done; and `ε` is the host, the
surroundings that all systems of a scheduler share.

A callback that fails still answers the states it leaves.
-/

namespace Cadence

/-- Why a callback of a system failed. -/
inductive Fault
  | failed (text : String)
  | missingComponent (handle : Handle)
  | submitOutsideLate (phase : Phase)
  | world (error : WorldError)
  deriving DecidableEq, Inhabited

namespace Fault

def message : Fault → String
  | failed text => text
  | missingComponent h => s!"missing component {h.describe}"
  | submitOutsideLate phase => s!"primitives may only be submitted during the late phase (got {phase.name})"
  | world error => error.message

end Fault

/-- What a callback sees of the frame. -/
structure Context where
  world : World
  phase : Phase
  frame : Nat
  parallel : Bool

namespace Context

/-- Drawing is for the late phase only. -/
def draw (ctx : Context) : Except Fault Unit :=
  if ctx.phase = .late then .ok () else .error (.submitOutsideLate ctx.phase)

end Context

/-- The answer of a callback. -/
structure Reply (σ ε α : Type) where
  outcome : Except Fault α
  system : σ
  host : ε

/-- The answer of a callback that may draw. -/
structure DrawReply (σ ε α : Type) extends Reply σ ε α where
  drawn : Array Primitive := #[]

/-- The answer of a callback that may draw and write to the world. -/
structure WriteReply (σ ε α : Type) extends DrawReply σ ε α where
  world : World

namespace Reply

variable {σ σ' ε α β : Type}

def map (f : σ → σ') (g : α → β) (r : Reply σ ε α) : Reply σ' ε β :=
  ⟨r.outcome.map g, f r.system, r.host⟩

end Reply

namespace DrawReply

variable {σ σ' ε α β : Type}

def map (f : σ → σ') (g : α → β) (r : DrawReply σ ε α) : DrawReply σ' ε β :=
  { r.toReply.map f g with drawn := r.drawn }

end DrawReply

namespace WriteReply

variable {σ σ' ε α β : Type}

def map (f : σ → σ') (g : α → β) (r : WriteReply σ ε α) : WriteReply σ' ε β :=
  { r.toDrawReply.map f g with world := r.world }

end WriteReply

/-- The callbacks of systems with states in `σ`. -/
structure System (σ ρ ε : Type) where
  name : σ → String
  /-- The version of the contract that the system was written against. -/
  version : σ → String := fun _ => apiVersion
  /-- Called once when the system is registered, with the phase and the id it gets. -/
  init : World → Phase → Nat → σ → ε → Reply σ ε Unit := fun _ _ _ s host => ⟨.ok (), s, host⟩
  /-- Whether the system wants to know about a component. -/
  accepts : σ → Component → Bool
  added : Handle → Entity → Component → σ → ε → Reply σ ε Unit := fun _ _ _ s host => ⟨.ok (), s, host⟩
  removed : Handle → Entity → Component → σ → ε → Reply σ ε Unit := fun _ _ _ s host => ⟨.ok (), s, host⟩
  /-- The update of a frame, which only reads the world. -/
  update : Context → Float32 → σ → ε → DrawReply σ ε (Option ρ)
  /-- The update in a serial phase, which may write to the world. -/
  updateSerial : Context → Float32 → σ → ε → WriteReply σ ε (Option ρ) :=
    fun ctx dt s host => { update ctx dt s host with world := ctx.world }
  /-- Takes the result of the update back and writes it to the world. -/
  apply : ρ → Context → σ → ε → WriteReply σ ε Unit :=
    fun _ ctx s host => { outcome := .ok (), system := s, host, world := ctx.world }
  shutdown : σ → ε → ε := fun _ host => host
  /-- The copy of a result that the scheduler keeps after a parallel update. -/
  duplicate : ρ → ε → ρ × ε := fun r host => (r, host)
  /-- Called on the result of a parallel update after it has been duplicated. -/
  release : ρ → ε → ε := fun _ host => host
  byteSize : ρ → Nat

namespace System

variable {σ σ₁ σ₂ ρ ρ₁ ρ₂ ε : Type}

/-- Systems of two families side by side. A result of the other family is none of a system's business. -/
def sum (a : System σ₁ ρ₁ ε) (b : System σ₂ ρ₂ ε) : System (σ₁ ⊕ σ₂) (ρ₁ ⊕ ρ₂) ε where
  name := Sum.elim a.name b.name
  version := Sum.elim a.version b.version
  init world phase number
    | .inl s, host => (a.init world phase number s host).map .inl id
    | .inr s, host => (b.init world phase number s host).map .inr id
  accepts := Sum.elim a.accepts b.accepts
  added h e c
    | .inl s, host => (a.added h e c s host).map .inl id
    | .inr s, host => (b.added h e c s host).map .inr id
  removed h e c
    | .inl s, host => (a.removed h e c s host).map .inl id
    | .inr s, host => (b.removed h e c s host).map .inr id
  update ctx dt
    | .inl s, host => (a.update ctx dt s host).map .inl (·.map .inl)
    | .inr s, host => (b.update ctx dt s host).map .inr (·.map .inr)
  updateSerial ctx dt
    | .inl s, host => (a.updateSerial ctx dt s host).map .inl (·.map .inl)
    | .inr s, host => (b.updateSerial ctx dt s host).map .inr (·.map .inr)
  apply r ctx s host :=
    match r, s with
    | .inl r, .inl s => (a.apply r ctx s host).map .inl id
    | .inr r, .inr s => (b.apply r ctx s host).map .inr id
    | _, s => { outcome := .ok (), system := s, host, world := ctx.world }
  shutdown
    | .inl s, host => a.shutdown s host
    | .inr s, host => b.shutdown s host
  duplicate
    | .inl r, host => ((a.duplicate r host).map .inl id)
    | .inr r, host => ((b.duplicate r host).map .inr id)
  release
    | .inl r, host => a.release r host
    | .inr r, host => b.release r host
  byteSize := Sum.elim a.byteSize b.byteSize

end System

/-- The bytes of a vector of `count` elements: its header and its elements. -/
def vectorBytes (elementBytes count : Nat) : Nat := 24 + elementBytes * count

end Cadence
