import Storyboard.Number.Scalar

/-!
# Double precision

Double precision numbers are the scalars that storyboards run with.  Their order
leaves a not-a-number incomparable with everything, itself included, so that it
is the one undefined value.
-/

namespace Storyboard

instance : Scalar Float where
  zero := 0
  one := 1
  ofScientific := Float.ofScientific
  natCast := Float.ofNat
  decideLt := fun _ _ => inferInstance
  decideLe := fun _ _ => inferInstance

instance : Analytic Float where
  sqrt := Float.sqrt
  sin := Float.sin
  cos := Float.cos
  arcsin := Float.asin
  arccos := Float.acos
  radiansPerDegree := 3.141592653589793 / 180.0
  degreesPerRadian := 57.29577951308232

end Storyboard
