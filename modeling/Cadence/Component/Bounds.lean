import Cadence.Scalar
import Cadence.Component.Transform

/-!
Boxes along the axes.
-/

namespace Cadence

structure Bounds where
  minX : Float32 := 0
  minY : Float32 := 0
  maxX : Float32 := 0
  maxY : Float32 := 0
  deriving BEq, Inhabited

namespace Bounds

/-- The box around a rectangle of the given size that is scaled, turned and centred as `t` says. -/
def around (t : Transform) (width height : Float32) : Bounds :=
  let halfW := width * t.scale * 0.5
  let halfH := height * t.scale * 0.5
  let sin := t.rotation.sin.abs
  let cos := t.rotation.cos.abs
  let reachX := halfW * cos + halfH * sin
  let reachY := halfW * sin + halfH * cos
  ⟨t.x - reachX, t.y - reachY, t.x + reachX, t.y + reachY⟩

def width (b : Bounds) : Float32 := b.maxX - b.minX

def height (b : Bounds) : Float32 := b.maxY - b.minY

/-- The smallest box around both. -/
def union (a b : Bounds) : Bounds where
  minX := Scalar.least a.minX b.minX
  minY := Scalar.least a.minY b.minY
  maxX := Scalar.greatest a.maxX b.maxX
  maxY := Scalar.greatest a.maxY b.maxY

/-- Boxes that only touch intersect too. -/
def intersects (a b : Bounds) : Bool :=
  a.minX <= b.maxX && a.maxX >= b.minX && a.minY <= b.maxY && a.maxY >= b.minY

end Bounds

end Cadence
