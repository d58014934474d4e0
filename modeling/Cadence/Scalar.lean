/-!
The smaller and the larger of two single-precision numbers. A NaN gives way to the other number, and of two
equal numbers the first is taken, which shows in the sign of a zero.
-/

namespace Cadence.Scalar

def least (x y : Float32) : Float32 :=
  if x.isNaN then y else if y < x then y else x

def greatest (x y : Float32) : Float32 :=
  if x.isNaN then y else if x < y then y else x

end Cadence.Scalar
