import Cadence.System.Boxes
import Cadence.System.Motion
import Cadence.System.Painter
import Cadence.System.Scripts.Basic

/-!
The systems of this library side by side, with scripts run by an interpreter with states in `τ`.
-/

namespace Cadence

abbrev BuiltIn (τ : Type) : Type := Motion ⊕ Boxes ⊕ Painter ⊕ Scripts τ

namespace BuiltIn

abbrev Result : Type := List Motion.Move ⊕ List Boxes.Box ⊕ Unit ⊕ List Command

def system {τ ε : Type} (I : Interpreter τ ε) : System (BuiltIn τ) Result ε :=
  (Motion.system ε).sum ((Boxes.system ε).sum ((Painter.system ε).sum (Scripts.system I)))

end BuiltIn

end Cadence
