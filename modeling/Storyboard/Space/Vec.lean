import Storyboard.Number.Scalar

/-!
# Vectors

Points and displacements of space by their three coordinates, with the products
and the motions that solids are placed and folded with.  A rotation is first
given by the sine and cosine of its angle, which is all its algebra needs.
-/

namespace Storyboard

/-- A point or a displacement of space. -/
@[ext] structure Vec (α : Type) where
  x : α
  y : α
  z : α
  deriving DecidableEq, Inhabited

namespace Vec

section Algebra

variable {α : Type} [Scalar α]

instance : Zero (Vec α) := ⟨⟨0, 0, 0⟩⟩

instance : Add (Vec α) := ⟨fun a b => ⟨a.x + b.x, a.y + b.y, a.z + b.z⟩⟩

instance : Sub (Vec α) := ⟨fun a b => ⟨a.x - b.x, a.y - b.y, a.z - b.z⟩⟩

instance : Neg (Vec α) := ⟨fun a => ⟨-a.x, -a.y, -a.z⟩⟩

instance : HMul (Vec α) α (Vec α) := ⟨fun a s => ⟨a.x * s, a.y * s, a.z * s⟩⟩

/-- The inner product. -/
def dot (a b : Vec α) : α := a.x * b.x + a.y * b.y + a.z * b.z

/-- The outer product, which follows the right hand. -/
def cross (a b : Vec α) : Vec α :=
  ⟨a.y * b.z - a.z * b.y, a.z * b.x - a.x * b.z, a.x * b.y - a.y * b.x⟩

/-- The point a fraction `t` of the way from `a` to `b`, coordinate by coordinate. -/
def interpolate (a b : Vec α) (t : α) : Vec α :=
  ⟨Scalar.interpolate a.x b.x t, Scalar.interpolate a.y b.y t,
    Scalar.interpolate a.z b.z t⟩

/-- The point reached from `a` by a fraction `t` of the displacement to `b`. -/
def along (a b : Vec α) (t : α) : Vec α := a + (b - a) * t

/-- The point halfway between two points. -/
def midpoint (a b : Vec α) : Vec α := (a + b) * (0.5 : α)

/-- The mean of some points. -/
def mean (points : List (Vec α)) : Vec α :=
  points.foldl (· + ·) 0 * (1 / ((points.length : Nat) : α) : α)

/-- The mean of some points, of which there has to be one. -/
def centroid? (points : List (Vec α)) : Option (Vec α) :=
  if points.isEmpty then none else some (mean points)

/-- A displacement turned about a unit vector by the angle of the given sine and cosine. -/
def turn (axis v : Vec α) (sine cosine : α) : Vec α :=
  v * cosine + axis.cross v * sine + axis * (axis.dot v * (1 - cosine))

/-- A point turned about the axis through `origin` along a unit vector. -/
def turnAbout (origin axis p : Vec α) (sine cosine : α) : Vec α :=
  turn axis (p - origin) sine cosine + origin

end Algebra

section Analysis

variable {α : Type} [Analytic α]

/-- The length of a displacement. -/
def length (a : Vec α) : α := Analytic.sqrt (a.dot a)

/-- The distance of two points. -/
def distance (a b : Vec α) : α := (a - b).length

/-- The unit vector of a displacement that has a finite length other than zero. -/
def direction? (a : Vec α) : Option (Vec α) :=
  let length := a.length
  if 0 < length ∧ Scalar.isFinite length = true then some (a * (1 / length : α)) else none

/-- A point turned about the line from `a` to `b`, which must be two points. -/
def rotate? (p a b : Vec α) (angle : α) : Option (Vec α) :=
  (b - a).direction?.map fun axis =>
    turnAbout a axis p (Analytic.sin angle) (Analytic.cos angle)

end Analysis

end Vec

end Storyboard
