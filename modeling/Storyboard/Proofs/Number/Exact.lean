import Mathlib.Algebra.Order.Field.Basic
import Mathlib.Analysis.SpecialFunctions.Trigonometric.Inverse
import Mathlib.Tactic.Linarith
import Mathlib.Tactic.NormNum
import Storyboard.Number.Scalar

/-!
# Exact scalars

Scalars that compute without rounding: their operations and their order are those
of a linearly ordered field, and a decimal literal stands for its rational value.
The real numbers are exact, with the roots and the circular functions of analysis.

Over exact scalars the helpers for undefined and for negative numbers become the
maximum of the field.
-/

namespace Storyboard

/-- Scalars with the arithmetic and the order of a field. -/
class ExactScalar (α : Type) extends Field α, LinearOrder α, IsStrictOrderedRing α,
    Scalar α where
  /-- A decimal literal is its rational value. -/
  literal_eq : ∀ (mantissa : Nat) (negative : Bool) (exponent : Nat),
    (OfScientific.ofScientific mantissa negative exponent : α) =
      ((OfScientific.ofScientific mantissa negative exponent : ℚ) : α)

/-- Exact scalars with roots and circular functions. -/
class ExactAnalytic (α : Type) extends ExactScalar α, Analytic α

noncomputable instance : Scalar ℝ where
  decideLt := fun _ _ => inferInstance
  decideLe := fun _ _ => inferInstance

noncomputable instance : ExactAnalytic ℝ where
  literal_eq := fun _ _ _ => (Rat.cast_ofScientific _ _ _).symm
  sqrt := Real.sqrt
  sin := Real.sin
  cos := Real.cos
  arcsin := Real.arcsin
  arccos := Real.arccos
  radiansPerDegree := Real.pi / 180
  degreesPerRadian := 180 / Real.pi

/-- Exact scalars in which the root of a number that is not negative is its square root. -/
class ExactRoots (α : Type) [ExactAnalytic α] : Prop where
  sqrt_nonneg : ∀ x : α, 0 ≤ Analytic.sqrt x
  mul_self_sqrt : ∀ {x : α}, 0 ≤ x → Analytic.sqrt x * Analytic.sqrt x = x

instance : ExactRoots ℝ where
  sqrt_nonneg := Real.sqrt_nonneg
  mul_self_sqrt := Real.mul_self_sqrt

theorem ExactRoots.sqrt_pos {α : Type} [ExactAnalytic α] [ExactRoots α] {x : α} (h : 0 < x) :
    0 < Analytic.sqrt x := by
  refine lt_of_le_of_ne (sqrt_nonneg x) fun hzero => h.ne ?_
  rw [← mul_self_sqrt h.le, ← hzero, mul_zero]

namespace ExactScalar

variable {α : Type} [ExactScalar α]

theorem half_eq : (0.5 : α) = 1 / 2 := by
  have h := literal_eq (α := α) 5 true 1
  rw [h]
  norm_num

/-- A literal with nothing but a zero after the point is a whole number. -/
theorem whole_eq (n : Nat) : (OfScientific.ofScientific (10 * n) true 1 : α) = n := by
  have hvalue : (OfScientific.ofScientific (10 * n) true 1 : ℚ) = n := by
    change Rat.ofScientific (10 * n) true 1 = n
    rw [Rat.ofScientific_def, if_pos rfl, Rat.mkRat_eq_div]
    push_cast
    ring
  rw [literal_eq, hvalue, Rat.cast_natCast]

theorem two_eq : (2.0 : α) = 2 :=
  whole_eq 2

theorem larger_eq_max (x y : α) : Scalar.larger x y = max x y := by
  unfold Scalar.larger
  split_ifs with h
  · exact (max_eq_right h.le).symm
  · exact (max_eq_left (not_lt.mp h)).symm

theorem isFinite (x : α) : Scalar.isFinite x = true :=
  decide_eq_true le_rfl

theorem nonNegative_eq_max (x : α) : Scalar.nonNegative x = max 0 x :=
  larger_eq_max 0 x

theorem literal_nonneg (mantissa : Nat) (negative : Bool) (exponent : Nat) :
    (0 : α) ≤ OfScientific.ofScientific mantissa negative exponent := by
  rw [literal_eq]
  have hnonneg :
      (0 : ℚ) ≤ OfScientific.ofScientific mantissa negative exponent := by
    change 0 ≤ Rat.ofScientific mantissa negative exponent
    rw [Rat.ofScientific_def]
    split_ifs
    · rw [Rat.mkRat_eq_div]
      positivity
    · positivity
  exact_mod_cast hnonneg

end ExactScalar

end Storyboard
