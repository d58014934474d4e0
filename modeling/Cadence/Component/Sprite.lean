import Cadence.Drawing.Color

/-!
A picture shown where its entity stands.
-/

namespace Cadence

/-- The picture's number, its size before scaling, the layer it is drawn on and its tint. -/
structure Sprite where
  sprite : UInt32
  width : Float32
  height : Float32
  layer : Int32 := 0
  color : Color := .white
  deriving BEq, Inhabited

end Cadence
