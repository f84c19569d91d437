import Storyboard.Proofs.Number.Order

/-!
# Scalars that times are told in

A clock adds up durations that are not less than zero.  For that it is enough that
addition keeps the order, which it does with exact numbers as well as with rounded
ones.  Nothing here says that a sum less one of its terms is the other.
-/

namespace Storyboard

/-- Scalars whose operations keep the order of the numbers that are not less than zero. -/
class TimeScalar (α : Type) [Scalar α] : Prop extends LawfulScalar α where
  literal_nonneg : ∀ (mantissa : Nat) (negative : Bool) (exponent : Nat),
    (0 : α) ≤ OfScientific.ofScientific mantissa negative exponent
  natCast_nonneg : ∀ n : Nat, (0 : α) ≤ n
  le_antisymm : ∀ {x y : α}, 0 < x → x ≤ y → y ≤ x → x = y
  le_add : ∀ {x y : α}, 0 ≤ x → 0 ≤ y → x ≤ x + y
  le_add_left : ∀ {x y : α}, 0 ≤ x → 0 ≤ y → y ≤ x + y
  add_le_add : ∀ {x x' y y' : α}, 0 ≤ x → 0 ≤ y → x ≤ x' → y ≤ y' → x + y ≤ x' + y'
  sub_le : ∀ {x y : α}, 0 ≤ x → 0 ≤ y → Scalar.isFinite y = true → x - y ≤ x
  div_nonneg : ∀ {x y : α}, 0 ≤ x → 0 < y → Scalar.isFinite y = true → 0 ≤ x / y
  /-- The parts that a pulse is divided into lie within the pulse. -/
  part_bounds : ∀ {i n : Nat}, i < 2 * n → n ≤ 100 →
    (0 : α) ≤ i * (1.5 / (2 * n : Nat)) ∧ (i : α) * (1.5 / (2 * n : Nat)) ≤ 1.5

theorem ExactScalar.part_bounds {α : Type} [ExactScalar α] {i n : Nat} (h : i < n) {d : α}
    (hd : 0 ≤ d) : 0 ≤ (i : α) * (d / n) ∧ (i : α) * (d / n) ≤ d := by
  have hn : (n : α) ≠ 0 := Nat.cast_ne_zero.mpr (Nat.ne_zero_of_lt h)
  have hpart : 0 ≤ d / (n : α) := div_nonneg hd (Nat.cast_nonneg n)
  refine ⟨mul_nonneg (Nat.cast_nonneg i) hpart, ?_⟩
  calc
    (i : α) * (d / n) ≤ n * (d / n) :=
      mul_le_mul_of_nonneg_right (Nat.cast_le.mpr h.le) hpart
    _ = d := mul_div_cancel₀ d hn

instance {α : Type} [ExactScalar α] : TimeScalar α where
  literal_nonneg := ExactScalar.literal_nonneg
  natCast_nonneg := Nat.cast_nonneg
  le_antisymm := fun _ h h' => le_antisymm h h'
  le_add := fun _ hy => le_add_of_nonneg_right hy
  le_add_left := fun hx _ => le_add_of_nonneg_left hx
  add_le_add := fun _ _ hx hy => add_le_add hx hy
  sub_le := fun _ hy _ => sub_le_self _ hy
  div_nonneg := fun hx hy _ => div_nonneg hx hy.le
  part_bounds := fun hi _ => ExactScalar.part_bounds hi (ExactScalar.literal_nonneg _ _ _)

namespace TimeScalar

variable {α : Type} [Scalar α] [TimeScalar α]

open LawfulScalar

theorem add_nonneg {x y : α} (hx : 0 ≤ x) (hy : 0 ≤ y) : 0 ≤ x + y :=
  le_trans hx (le_add hx hy)

theorem le_larger_left {x : α} (hx : 0 ≤ x) (y : α) : x ≤ Scalar.larger x y := by
  unfold Scalar.larger
  split_ifs with h
  · exact (lt_iff.mp h).1
  · exact right_defined hx

theorem le_larger_right {x y : α} (hx : 0 ≤ x) (hy : 0 ≤ y) : y ≤ Scalar.larger x y := by
  unfold Scalar.larger
  split_ifs with h
  · exact right_defined hy
  · exact Scalar.le_of_not_lt (right_defined hy) (right_defined hx) h

end TimeScalar

end Storyboard
