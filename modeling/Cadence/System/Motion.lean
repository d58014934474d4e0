import Cadence.InOrder
import Cadence.System.Basic

/-!
Moves every entity by its velocity. Each velocity moves the first transform of its owner; owners without a transform
and velocities that are not finite are passed over.
-/

namespace Cadence

structure Motion where
  velocities : Index := {}
  deriving Inhabited

namespace Motion

/-- Where a transform is to be moved. -/
structure Move where
  transform : Handle
  x : Float32
  y : Float32

/-- The move that one velocity asks for. -/
def move? (w : World) (dt : Float32) (entry : Index.Entry) : Except WorldError (Option Move) :=
  match w.component .velocity entry.handle with
  | .error e => .error e
  | .ok v =>
    match w.first? .transform entry.owner with
    | none => .ok none
    | some (h, t) => .ok (if v.isFinite then some ⟨h, t.x + v.dx * dt, t.y + v.dy * dt⟩ else none)

/-- The moves of a frame, in the order of the index. -/
def moves (m : Motion) (w : World) (dt : Float32) : Except WorldError (List Move) :=
  (m.velocities.entries.toList.mapM (move? w dt)).map (·.filterMap id)

def applyMove (w : World) (move : Move) : Except WorldError Unit × World :=
  w.modify .transform move.transform (·.moveTo move.x move.y)

def applyMoves (w : World) (moves : List Move) : Except WorldError Unit × World :=
  inOrder applyMove w moves

def system (ε : Type) : System Motion (List Move) ε where
  name _ := "motion"
  accepts _ c := c.kind == .velocity
  added h owner _ m host := ⟨.ok (), { m with velocities := (m.velocities.insert h owner).2 }, host⟩
  removed h _ _ m host := ⟨.ok (), { m with velocities := (m.velocities.remove h).2 }, host⟩
  update ctx dt m host :=
    let outcome := match m.moves ctx.world dt with
      | .error e => .error (.world e)
      | .ok [] => .ok none
      | .ok moves => .ok (some moves)
    { outcome, system := m, host }
  apply moves ctx m host :=
    let (outcome, world) := applyMoves ctx.world moves
    { outcome := outcome.mapError .world, system := m, host, world }
  byteSize moves := vectorBytes 16 moves.length

end Motion

end Cadence
