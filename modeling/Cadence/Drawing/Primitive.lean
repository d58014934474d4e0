import Cadence.Entity
import Cadence.Drawing.Color

/-!
What can be drawn.
-/

namespace Cadence

inductive Shape
  | rect (x y width height : Float32) (filled : Bool)
  | sprite (sprite : UInt32) (x y width height rotation : Float32)
  | line (x y x' y' thickness : Float32)
  | text (x y : Float32) (text : String) (size : Float32)
  deriving BEq, Inhabited

/-- A shape with the entity it stands for, if any, the layer it is drawn on and its colour. -/
structure Primitive where
  source : Option Entity := none
  layer : Int32 := 0
  shape : Shape
  color : Color := .white
  deriving BEq, Inhabited

end Cadence
