/-!
A camera shows a part of the world in a viewport.
-/

namespace Cadence

/-- The world position shown in the middle of the viewport, pixels for each unit, and the viewport's size in pixels. -/
structure Camera where
  x : Float32 := 0
  y : Float32 := 0
  zoom : Float32 := 1
  width : Float32
  height : Float32
  deriving BEq, Inhabited

namespace Camera

/-- The pixel at which a world position is shown. -/
def toScreen (c : Camera) (x y : Float32) : Float32 × Float32 :=
  ((x - c.x) * c.zoom + c.width * 0.5, (y - c.y) * c.zoom + c.height * 0.5)

/-- Whether a box of pixels around `(sx, sy)` touches the viewport. -/
def sees (c : Camera) (sx sy width height : Float32) : Bool :=
  0 <= sx + width * 0.5 && 0 <= sy + height * 0.5 && sx - width * 0.5 <= c.width && sy - height * 0.5 <= c.height

end Camera

end Cadence
