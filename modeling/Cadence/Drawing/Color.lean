/-!
Colours with an opacity, eight bits a channel.
-/

namespace Cadence

structure Color where
  red : UInt8
  green : UInt8
  blue : UInt8
  alpha : UInt8 := 255
  deriving DecidableEq, Inhabited, Repr

namespace Color

def white : Color := ⟨255, 255, 255, 255⟩

def black : Color := ⟨0, 0, 0, 255⟩

def transparent : Color := ⟨0, 0, 0, 0⟩

end Color

end Cadence
