/-!
Where an entity stands and how fast it moves.
-/

namespace Cadence

/-- A position with a rotation in radians and one scale for both axes. -/
structure Transform where
  x : Float32 := 0
  y : Float32 := 0
  rotation : Float32 := 0
  scale : Float32 := 1
  deriving BEq, Inhabited

namespace Transform

def moveTo (t : Transform) (x y : Float32) : Transform := { t with x, y }

def rotateTo (t : Transform) (rotation : Float32) : Transform := { t with rotation }

def isFinite (t : Transform) : Bool :=
  t.x.isFinite && t.y.isFinite && t.rotation.isFinite && t.scale.isFinite

@[simp] theorem moveTo_rotation (t : Transform) (x y : Float32) : (t.moveTo x y).rotation = t.rotation := rfl

@[simp] theorem moveTo_scale (t : Transform) (x y : Float32) : (t.moveTo x y).scale = t.scale := rfl

@[simp] theorem moveTo_moveTo (t : Transform) (x y x' y' : Float32) :
    (t.moveTo x y).moveTo x' y' = t.moveTo x' y' := rfl

end Transform

/-- Units per second along each axis. -/
structure Velocity where
  dx : Float32 := 0
  dy : Float32 := 0
  deriving BEq, Inhabited

namespace Velocity

def isFinite (v : Velocity) : Bool := v.dx.isFinite && v.dy.isFinite

end Velocity

end Cadence
