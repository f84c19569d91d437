import Storyboard.Space.Vec

/-!
# Spherical positions

A position on a sphere about the origin by radius, azimuth and elevation in
degrees, and the point it stands for.  The second axis points up.
-/

namespace Storyboard

/-- Radius, azimuth `theta` and elevation `phi`, the angles in degrees. -/
structure Spherical (α : Type) where
  radius : α
  theta : α
  phi : α
  deriving DecidableEq, Inhabited

namespace Spherical

/-- The point of a spherical position. -/
def position {α : Type} [Analytic α] (s : Spherical α) : Vec α :=
  let theta := Analytic.radians s.theta
  let phi := Analytic.radians s.phi
  ⟨s.radius * Analytic.cos phi * Analytic.cos theta,
    s.radius * Analytic.sin phi,
    s.radius * Analytic.cos phi * Analytic.sin theta⟩

/-- The position a fraction `t` of the way from `a` to `b`, each number on its own. -/
def interpolate {α : Type} [Scalar α] (a b : Spherical α) (t : α) : Spherical α :=
  ⟨Scalar.interpolate a.radius b.radius t, Scalar.interpolate a.theta b.theta t,
    Scalar.interpolate a.phi b.phi t⟩

end Spherical

end Storyboard
