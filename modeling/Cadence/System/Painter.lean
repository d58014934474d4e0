import Cadence.InOrder
import Cadence.Drawing.Camera
import Cadence.System.Basic

/-!
Draws the sprites that its camera sees, and counts the others.
-/

namespace Cadence

structure Painter where
  camera : Camera
  sprites : Index := {}
  culled : Nat := 0
  deriving Inhabited

namespace Painter

/-- The sprite as it is shown on the screen, or `none` if the camera does not see it. An owner without a transform
stands at the origin. -/
def paint? (camera : Camera) (owner : Entity) (t : Transform) (sprite : Sprite) : Option Primitive :=
  let (sx, sy) := camera.toScreen t.x t.y
  let width := sprite.width * t.scale * camera.zoom
  let height := sprite.height * t.scale * camera.zoom
  if camera.sees sx sy width height then
    some
      { source := some owner
        layer := sprite.layer
        shape := .sprite sprite.sprite sx sy width height t.rotation
        color := sprite.color }
  else none

/-- The sprites seen and the number of the others, so far. -/
structure Sweep where
  drawn : Array Primitive := #[]
  culled : Nat := 0

def sweepEntry (camera : Camera) (w : World) (sweep : Sweep) (entry : Index.Entry) :
    Except WorldError Unit × Sweep :=
  match w.component .sprite entry.handle with
  | .error e => (.error e, sweep)
  | .ok sprite =>
    let t := match w.first? .transform entry.owner with
      | none => {}
      | some (_, t) => t
    match paint? camera entry.owner t sprite with
    | none => (.ok (), { sweep with culled := sweep.culled + 1 })
    | some p => (.ok (), { sweep with drawn := sweep.drawn.push p })

/-- Goes through all sprites in the order of the index. -/
def sweep (p : Painter) (w : World) : Except WorldError Unit × Sweep :=
  inOrder (sweepEntry p.camera w) {} p.sprites.entries.toList

def system (ε : Type) : System Painter Unit ε where
  name _ := "sprite-render"
  accepts _ c := c.kind == .sprite
  added h owner _ p host := ⟨.ok (), { p with sprites := (p.sprites.insert h owner).2 }, host⟩
  removed h _ _ p host := ⟨.ok (), { p with sprites := (p.sprites.remove h).2 }, host⟩
  update ctx _ p host :=
    let (outcome, sweep) := p.sweep ctx.world
    let system := { p with culled := sweep.culled }
    match outcome with
    | .error e => { outcome := .error (.world e), system, host }
    | .ok () =>
      match ctx.draw with
      | .error fault => { outcome := .error fault, system, host }
      | .ok () => { outcome := .ok none, system, host, drawn := sweep.drawn }
  byteSize _ := 0

end Painter

end Cadence
