/-!
# Scalars

The numbers that a storyboard is computed with: coordinates, times, angles,
opacities.  Everything below is written once, over any type with the four
operations, an order that can be decided, and decimal literals.  Double
precision numbers run; exact ordered fields are reasoned about.

Nothing here assumes that the order is total.  A number that is not even
comparable with itself counts as *undefined*, and the helpers say what becomes
of it.
-/

namespace Storyboard

/-- Numbers with the four operations, literals, and a decidable order. -/
class Scalar (α : Type) extends Add α, Sub α, Mul α, Div α, Neg α, Zero α, One α,
    LT α, LE α, OfScientific α, NatCast α where
  decideLt : ∀ x y : α, Decidable (x < y)
  decideLe : ∀ x y : α, Decidable (x ≤ y)

/-- Scalars with roots and the trigonometric functions of a circle. -/
class Analytic (α : Type) extends Scalar α where
  sqrt : α → α
  sin : α → α
  cos : α → α
  arcsin : α → α
  arccos : α → α
  /-- The radians in one degree. -/
  radiansPerDegree : α
  /-- The degrees in one radian. -/
  degreesPerRadian : α

/-- Scalars that can be written into a message. -/
class NumberText (α : Type) where
  /-- The shortest decimal that reads back, without an exponent. -/
  plain : α → String
  /-- The value rounded to one decimal place. -/
  tenths : α → String

namespace Scalar

variable {α : Type} [Scalar α]

instance (x y : α) : Decidable (x < y) := Scalar.decideLt x y

instance (x y : α) : Decidable (x ≤ y) := Scalar.decideLe x y

/-- A number is undefined when it does not compare with itself. -/
def isUndefined (x : α) : Bool := ¬ x ≤ x

/-- A number is finite when taking it from itself leaves a defined number. -/
def isFinite (x : α) : Bool := x - x ≤ x - x

/-- Both zeros of a signed arithmetic are zero, an undefined number is not. -/
def isZero (x : α) : Bool := x ≤ 0 ∧ 0 ≤ x

/-- The larger of two numbers; an undefined second one is passed over. -/
def larger (x y : α) : α := if x < y then y else x

/-- What remains of a length of time once negative and undefined ones count as none. -/
def nonNegative (x : α) : α := larger 0 x

/-- The distance from zero. -/
def magnitude (x : α) : α := if 0 < x then x else 0 - x

/-- The nearest number between `lo` and `hi`; an undefined one stays undefined. -/
def clamp (lo hi x : α) : α :=
  if x < lo then lo else if hi < x then hi else x

/-- Clamping that takes an undefined number to the lower end. -/
def confine (lo hi x : α) : α :=
  if isUndefined x then lo else clamp lo hi x

/-- The number a fraction `t` of the way from `a` to `b`. -/
def interpolate (a b t : α) : α := a + (b - a) * t

/-- The sum of a list, which is the negative zero when there is nothing to add. -/
def sum (xs : List α) : α := xs.foldl (· + ·) (-0)

end Scalar

namespace Analytic

variable {α : Type} [Analytic α]

/-- Degrees turned into radians. -/
def radians (degrees : α) : α := degrees * radiansPerDegree

/-- Radians turned into degrees. -/
def degrees (radians : α) : α := radians * degreesPerRadian

/-- The angle whose cosine is nearest to `x`, also just outside `[-1, 1]`. -/
def angleOfCosine (x : α) : α := arccos (Scalar.clamp (-1) 1 x)

/-- The angle whose sine is nearest to `x`, also just outside `[-1, 1]`. -/
def angleOfSine (x : α) : α := arcsin (Scalar.clamp (-1) 1 x)

end Analytic

end Storyboard
