import Mathlib.Tactic.GCongr
import Mathlib.Tactic.Linarith
import Storyboard.Proofs.Number.Differences
import Storyboard.Timeline.Frame

/-!
# The curves of an easing

With exact numbers a curve rises from zero to one and never turns back; to the sides
of the unit interval it stays where it ended.  The curve made of two parabolas is the
same when it is turned half around its middle.

With rounded numbers less is known: a curve starts at zero, also where the part of
the span that has gone by is undefined.
-/

namespace Storyboard

/-! ## Exact curves -/

namespace ExactScalar

variable {α : Type} [ExactScalar α]

theorem confine_eq (x : α) : Scalar.confine 0 1 x = max 0 (min 1 x) := by
  have hdefined : Scalar.isUndefined x = false := by simp [Scalar.isUndefined]
  rw [Scalar.confine, hdefined, if_neg Bool.false_ne_true, Scalar.clamp]
  split_ifs with hlow hhigh
  · rw [min_eq_right (hlow.le.trans zero_le_one), max_eq_left hlow.le]
  · rw [min_eq_left hhigh.le, max_eq_right zero_le_one]
  · rw [min_eq_right (not_lt.mp hhigh), max_eq_right (not_lt.mp hlow)]

end ExactScalar

namespace Easing

section Exact

open ExactScalar

variable {α : Type} [ExactScalar α] {x s t : α}

theorem inOut_of_lt (h : x < 1 / 2) : inOut x = 2 * x ^ 2 := by
  rw [inOut, half_eq, two_eq, if_pos h]
  ring

theorem inOut_of_le (h : 1 / 2 ≤ x) : inOut x = 1 - 2 * (1 - x) ^ 2 := by
  rw [inOut, half_eq, two_eq, if_neg (not_lt.mpr h)]
  ring

/-- The two parabolas are the same, turned half around the middle. -/
theorem inOut_one_sub (x : α) : inOut (1 - x) = 1 - inOut x := by
  rcases lt_trichotomy x (1 / 2) with h | rfl | h
  · have hflip : 1 / 2 ≤ 1 - x := by linarith
    rw [inOut_of_le hflip, inOut_of_lt h]
    ring
  · have hmiddle : (1 : α) - 1 / 2 = 1 / 2 := by norm_num
    rw [hmiddle, inOut_of_le le_rfl]
    norm_num
  · have hflip : 1 - x < 1 / 2 := by linarith
    rw [inOut_of_lt hflip, inOut_of_le h.le]
    ring

theorem inOut_mono (h0 : 0 ≤ s) (h : s ≤ t) (h1 : t ≤ 1) : inOut s ≤ inOut t := by
  by_cases hs : s < 1 / 2
  · by_cases ht : t < 1 / 2
    · rw [inOut_of_lt hs, inOut_of_lt ht]
      gcongr
    · -- on either side of the middle, whose value is between the two
      have hlow : s ^ 2 ≤ (1 / 2) ^ 2 := by gcongr
      have hhigh : (1 - t) ^ 2 ≤ (1 / 2) ^ 2 :=
        pow_le_pow_left₀ (sub_nonneg.mpr h1) (by linarith) 2
      rw [inOut_of_lt hs, inOut_of_le (not_lt.mp ht)]
      linarith
  · have hs' : 1 / 2 ≤ s := not_lt.mp hs
    have hrest : (1 - t) ^ 2 ≤ (1 - s) ^ 2 :=
      pow_le_pow_left₀ (sub_nonneg.mpr h1) (by linarith) 2
    rw [inOut_of_le hs', inOut_of_le (hs'.trans h)]
    linarith

theorem inOut_zero : inOut (0 : α) = 0 := by
  rw [inOut_of_lt (by norm_num)]
  norm_num

theorem inOut_one : inOut (1 : α) = 1 := by
  rw [inOut_of_le (by norm_num)]
  norm_num

/-- A curve takes no notice of what is outside of the unit interval. -/
theorem apply_eq (easing : Easing) (x : α) :
    easing.apply x = easing.apply (max 0 (min 1 x)) := by
  have hinside : max 0 (min 1 (max 0 (min 1 x))) = max 0 (min 1 x) := by
    rw [min_eq_right (max_le zero_le_one (min_le_left _ _)), max_eq_right (le_max_left _ _)]
  simp only [apply, confine_eq, hinside]

theorem apply_of_mem (easing : Easing) (h0 : 0 ≤ x) (h1 : x ≤ 1) :
    easing.apply x = match easing with
      | linear => x
      | ease | easeInOut => inOut x
      | easeIn => x ^ 2
      | easeOut => 1 - (1 - x) ^ 2 := by
  have hinside : max 0 (min 1 x) = x := by rw [min_eq_right h1, max_eq_right h0]
  cases easing <;> simp only [apply, confine_eq, hinside, pow_two]

theorem apply_of_le_zero (easing : Easing) (hx : x ≤ 0) : easing.apply x = 0 := by
  have houtside : max 0 (min 1 x) = 0 := by
    rw [min_eq_right (hx.trans zero_le_one), max_eq_left hx]
  rw [apply_eq, houtside, apply_of_mem easing le_rfl zero_le_one]
  cases easing <;> simp [inOut_zero]

theorem apply_of_one_le (easing : Easing) (hx : 1 ≤ x) : easing.apply x = 1 := by
  have houtside : max 0 (min 1 x) = 1 := by
    rw [min_eq_left hx, max_eq_right zero_le_one]
  rw [apply_eq, houtside, apply_of_mem easing zero_le_one le_rfl]
  cases easing <;> simp [inOut_one]

theorem apply_mono (easing : Easing) (h : s ≤ t) : easing.apply s ≤ easing.apply t := by
  rw [apply_eq easing s, apply_eq easing t]
  have hs0 : 0 ≤ max 0 (min 1 s) := le_max_left _ _
  have ht1 : max 0 (min 1 t) ≤ 1 := max_le zero_le_one (min_le_left _ _)
  have hst : max 0 (min 1 s) ≤ max 0 (min 1 t) := max_le_max_left _ (min_le_min_left _ h)
  generalize max 0 (min 1 s) = s at *
  generalize max 0 (min 1 t) = t at *
  rw [apply_of_mem easing hs0 (hst.trans ht1), apply_of_mem easing (hs0.trans hst) ht1]
  cases easing with
  | linear => exact hst
  | ease | easeInOut => exact inOut_mono hs0 hst ht1
  | easeIn => exact pow_le_pow_left₀ hs0 hst 2
  | easeOut =>
      exact sub_le_sub_left
        (pow_le_pow_left₀ (sub_nonneg.mpr ht1) (sub_le_sub_left hst 1) 2) 1

theorem apply_nonneg (easing : Easing) (x : α) : 0 ≤ easing.apply x :=
  calc
    0 = easing.apply (min 0 x) := (apply_of_le_zero easing (min_le_left 0 x)).symm
    _ ≤ easing.apply x := apply_mono easing (min_le_right 0 x)

theorem apply_le_one (easing : Easing) (x : α) : easing.apply x ≤ 1 :=
  calc
    easing.apply x ≤ easing.apply (max 1 x) := apply_mono easing (le_max_right 1 x)
    _ = 1 := apply_of_one_le easing (le_max_left 1 x)

/-- The curves with two parabolas are the same, turned half around the middle. -/
theorem apply_one_sub {easing : Easing} (h : easing = ease ∨ easing = easeInOut) (x : α) :
    easing.apply (1 - x) = 1 - easing.apply x := by
  rcases le_total x 0 with hlow | hlow
  · have hflip : 1 ≤ 1 - x := by linarith
    rw [apply_of_le_zero easing hlow, apply_of_one_le easing hflip, sub_zero]
  rcases le_total 1 x with hhigh | hhigh
  · have hflip : 1 - x ≤ 0 := by linarith
    rw [apply_of_one_le easing hhigh, apply_of_le_zero easing hflip, sub_self]
  rw [apply_of_mem easing hlow hhigh,
    apply_of_mem easing (sub_nonneg.mpr hhigh) (sub_le_self 1 hlow)]
  rcases h with rfl | rfl <;> exact inOut_one_sub x

end Exact

/-- In double precision a curve starts at zero as well, with either sign. -/
theorem isZero_apply (easing : Easing) {x : Float} (h : Scalar.isZero x = true) :
    Scalar.isZero (easing.apply x) = true := by
  rcases eq_zero_of_isZero h with rfl | rfl
  · cases easing <;> decide +kernel
  · cases easing <;> decide +kernel

theorem isZero_apply_of_isUndefined (easing : Easing) {x : Float}
    (h : Scalar.isUndefined x = true) : Scalar.isZero (easing.apply x) = true := by
  have hlow : Scalar.confine 0 1 x = 0 := if_pos h
  simp only [apply, hlow]
  cases easing <;> decide +kernel

end Easing

/-! ## Where a way starts -/

/-- Scalars in which spans have a length and ways start where they should, if their ends
are not too far apart. -/
class TweenScalar (α : Type) [Scalar α] : Prop extends LawfulScalar α where
  not_sub_le_zero : ∀ {x y : α}, x < y → ¬ y - x ≤ 0
  isZero_apply_start : ∀ (easing : Easing) {p t n : α}, p ≤ t → t ≤ p → p < n →
    Scalar.isZero (easing.apply ((t - p) / (n - p))) = true
  interpolate_of_isZero : ∀ {a b z : α}, Scalar.isZero z = true →
    if Scalar.isFinite (b - a) then Scalar.interpolate a b z ≤ a ∧ a ≤ Scalar.interpolate a b z
    else Scalar.isUndefined (Scalar.interpolate a b z) = true

instance {α : Type} [ExactScalar α] : TweenScalar α where
  not_sub_le_zero := fun h => not_le.mpr (sub_pos.mpr h)
  isZero_apply_start := by
    intro easing p t n h h' _
    have hstart : (t - p) / (n - p) = 0 := by
      rw [le_antisymm h h', sub_self, zero_div]
    have hzero : easing.apply ((t - p) / (n - p)) = 0 :=
      Easing.apply_of_le_zero easing hstart.le
    simp [Scalar.isZero, hzero]
  interpolate_of_isZero := by
    intro a b z hz
    have hzero : z = 0 := by
      rw [Scalar.isZero, decide_eq_true_iff] at hz
      exact le_antisymm hz.1 hz.2
    have hstart : Scalar.interpolate a b z = a := by
      rw [Scalar.interpolate, hzero, mul_zero, add_zero]
    rw [if_pos (ExactScalar.isFinite _), hstart]
    exact ⟨le_rfl, le_rfl⟩

instance : TweenScalar Float where
  not_sub_le_zero := not_sub_le_zero_float
  isZero_apply_start := fun easing _ _ _ h h' hn =>
    (div_sub_of_le_of_ge h h' hn).elim (Easing.isZero_apply_of_isUndefined easing)
      (Easing.isZero_apply easing)
  interpolate_of_isZero := interpolate_of_isZero_float

end Storyboard
