import Mathlib.Data.Prod.Lex
import Storyboard.Proofs.Number.Exact
import Storyboard.Proofs.Number.Double

/-!
# The order of defined numbers

A number that is not comparable with itself is undefined.  Among the others the order
is total, both for exact numbers and in double precision, where they compare as the
triples of a rank, an exponent and a mantissa do.
-/

namespace Storyboard

/-- Scalars whose order is total among the numbers that are comparable with themselves. -/
class LawfulScalar (α : Type) [Scalar α] : Prop where
  zero_le_zero : (0 : α) ≤ 0
  lt_iff : ∀ {x y : α}, x < y ↔ x ≤ y ∧ ¬ y ≤ x
  le_trans : ∀ {x y z : α}, x ≤ y → y ≤ z → x ≤ z
  le_total : ∀ {x y : α}, x ≤ x → y ≤ y → x ≤ y ∨ y ≤ x
  left_defined : ∀ {x y : α}, x ≤ y → x ≤ x
  right_defined : ∀ {x y : α}, x ≤ y → y ≤ y

instance {α : Type} [ExactScalar α] : LawfulScalar α where
  zero_le_zero := le_rfl
  lt_iff := lt_iff_le_not_ge
  le_trans := le_trans
  le_total := fun _ _ => le_total _ _
  left_defined := fun _ => le_rfl
  right_defined := fun _ => le_rfl

/-! ## Double precision -/

open Float.Model

/-- The triple by which a number is compared: its rank by sign and size, exponent, mantissa. -/
def compareKey : UnpackedFloat → ℤ ×ₗ (ℤ ×ₗ ℤ)
  | .infinity .negative => toLex (-2, toLex (0, 0))
  | .finite .negative m e _ => toLex (-1, toLex (-e, -m))
  | .zero _ | .notANumber => toLex (0, toLex (0, 0))
  | .finite .positive m e _ => toLex (1, toLex (e, m))
  | .infinity .positive => toLex (2, toLex (0, 0))

theorem isLE_then_compare (e e' : ℤ) (m m' : ℕ) :
    ((compare e e').then (compare m m')).isLE = true ↔
      (toLex (e, (m : ℤ)) : ℤ ×ₗ ℤ) ≤ toLex (e', (m' : ℤ)) := by
  rw [Prod.Lex.toLex_le_toLex]
  rcases lt_trichotomy e e' with h | rfl | h
  · simp [compare_lt_iff_lt.mpr h, h]
  · simp [Ordering.then, Nat.isLE_compare]
  · simp [compare_gt_iff_gt.mpr h, h.ne', h.not_gt]

theorem isLE_swap_then_compare (e e' : ℤ) (m m' : ℕ) :
    ((compare e e').then (compare m m')).swap.isLE = true ↔
      (toLex (-e, -(m : ℤ)) : ℤ ×ₗ ℤ) ≤ toLex (-e', -(m' : ℤ)) := by
  have hswap : ((compare e e').then (compare m m')).swap =
      (compare e' e).then (compare m' m) := by
    rw [Ordering.swap_then, ← Std.OrientedOrd.eq_swap, ← Std.OrientedOrd.eq_swap]
  rw [hswap, isLE_then_compare, Prod.Lex.toLex_le_toLex, Prod.Lex.toLex_le_toLex,
    neg_lt_neg_iff, neg_le_neg_iff, neg_inj, eq_comm]

theorem toLex_le_of_lt {r r' : ℤ} (h : r < r') (a b : ℤ ×ₗ ℤ) :
    (toLex (r, a) : ℤ ×ₗ (ℤ ×ₗ ℤ)) ≤ toLex (r', b) :=
  Prod.Lex.toLex_le_toLex.mpr (Or.inl h)

theorem not_toLex_le_of_lt {r r' : ℤ} (h : r' < r) (a b : ℤ ×ₗ ℤ) :
    ¬ (toLex (r, a) : ℤ ×ₗ (ℤ ×ₗ ℤ)) ≤ toLex (r', b) :=
  not_le_of_gt (Prod.Lex.toLex_lt_toLex.mpr (Or.inl h))

/-- Numbers that are no not-a-number compare as their keys do. -/
theorem le_iff_compareKey {u v : UnpackedFloat} (hu : u ≠ .notANumber)
    (hv : v ≠ .notANumber) : u.le v = true ↔ compareKey u ≤ compareKey v := by
  cases u with
  | notANumber => exact absurd rfl hu
  | infinity s | zero s =>
      cases v with
      | notANumber => exact absurd rfl hv
      | infinity s' | zero s' | finite s' =>
          cases s <;> cases s' <;> first
            | exact iff_of_true rfl le_rfl
            | exact iff_of_true rfl (toLex_le_of_lt (by decide) _ _)
            | exact iff_of_false Bool.false_ne_true (not_toLex_le_of_lt (by decide) _ _)
  | finite s m e h =>
      cases v with
      | notANumber => exact absurd rfl hv
      | infinity s' | zero s' =>
          cases s <;> cases s' <;> first
            | exact iff_of_true rfl le_rfl
            | exact iff_of_true rfl (toLex_le_of_lt (by decide) _ _)
            | exact iff_of_false Bool.false_ne_true (not_toLex_le_of_lt (by decide) _ _)
      | finite s' m' e' h' =>
          have hsame : ∀ (r : ℤ) (a b : ℤ ×ₗ ℤ),
              (toLex (r, a) : ℤ ×ₗ (ℤ ×ₗ ℤ)) ≤ toLex (r, b) ↔ a ≤ b := by
            simp [Prod.Lex.toLex_le_toLex]
          cases s with
          | negative =>
              cases s' with
              | negative => exact (isLE_swap_then_compare e e' m m').trans (hsame _ _ _).symm
              | positive => exact iff_of_true rfl (toLex_le_of_lt (by decide) _ _)
          | positive =>
              cases s' with
              | negative =>
                  exact iff_of_false Bool.false_ne_true (not_toLex_le_of_lt (by decide) _ _)
              | positive => exact (isLE_then_compare e e' m m').trans (hsame _ _ _).symm

theorem ne_of_le_unpacked {u v : UnpackedFloat} (h : u.le v = true) :
    u ≠ .notANumber ∧ v ≠ .notANumber := by
  constructor
  · rintro rfl
    cases h
  · rintro rfl
    cases u <;> cases h

theorem lt_iff_le_unpacked (u v : UnpackedFloat) :
    u.lt v = true ↔ u.le v = true ∧ ¬ v.le u = true := by
  by_cases hu : u = .notANumber
  · subst hu
    exact iff_of_false Bool.false_ne_true fun h => (ne_of_le_unpacked h.1).1 rfl
  by_cases hv : v = .notANumber
  · subst hv
    refine iff_of_false ?_ fun h => (ne_of_le_unpacked h.1).2 rfl
    cases u <;> exact Bool.false_ne_true
  obtain ⟨o, ho, hswap⟩ := compare_unpacked hu hv
  rw [UnpackedFloat.lt, UnpackedFloat.le, UnpackedFloat.le, ho, hswap]
  cases o <;> decide

instance : LawfulScalar Float where
  zero_le_zero := by decide
  lt_iff := by
    intro x y
    rw [float_lt_iff, float_le_iff, float_le_iff]
    exact lt_iff_le_unpacked _ _
  le_trans := by
    intro x y z hxy hyz
    rw [float_le_iff] at hxy hyz ⊢
    obtain ⟨hx, hy⟩ := ne_of_le_unpacked hxy
    obtain ⟨-, hz⟩ := ne_of_le_unpacked hyz
    rw [le_iff_compareKey hx hy] at hxy
    rw [le_iff_compareKey hy hz] at hyz
    exact (le_iff_compareKey hx hz).mpr (hxy.trans hyz)
  le_total := by
    intro x y hx hy
    rw [float_le_iff] at hx hy
    have hx' := (ne_of_le_unpacked hx).1
    have hy' := (ne_of_le_unpacked hy).1
    rw [float_le_iff, float_le_iff, le_iff_compareKey hx' hy', le_iff_compareKey hy' hx']
    exact le_total _ _
  left_defined := by
    intro x y h
    rw [float_le_iff] at h ⊢
    have hx := (ne_of_le_unpacked h).1
    exact (le_iff_compareKey hx hx).mpr le_rfl
  right_defined := by
    intro x y h
    rw [float_le_iff] at h ⊢
    have hy := (ne_of_le_unpacked h).2
    exact (le_iff_compareKey hy hy).mpr le_rfl

/-! ## Comparisons that fail -/

namespace Scalar

variable {α : Type} [Scalar α] [LawfulScalar α]

open LawfulScalar

theorem le_of_not_lt {x y : α} (hx : x ≤ x) (hy : y ≤ y) (h : ¬ y < x) : x ≤ y := by
  by_contra hle
  exact h (lt_iff.mpr ⟨(le_total hx hy).resolve_left hle, hle⟩)

theorem not_lt_of_le {x y : α} (h : x ≤ y) : ¬ y < x :=
  fun hlt => (lt_iff.mp hlt).2 h

theorem lt_of_lt_of_le {x y z : α} (h : x < y) (h' : y ≤ z) : x < z :=
  lt_iff.mpr ⟨le_trans (lt_iff.mp h).1 h', fun hle => (lt_iff.mp h).2 (le_trans h' hle)⟩

theorem lt_of_le_of_lt {x y z : α} (h : x ≤ y) (h' : y < z) : x < z :=
  lt_iff.mpr ⟨le_trans h (lt_iff.mp h').1, fun hle => (lt_iff.mp h').2 (le_trans hle h)⟩

/-- What counts as no time at all is the negative and the undefined. -/
theorem zero_le_nonNegative (x : α) : 0 ≤ nonNegative x := by
  unfold nonNegative larger
  split
  next h => exact (lt_iff.mp h).1
  next h => exact zero_le_zero

theorem le_nonNegative {x : α} (h : x ≤ x) : x ≤ nonNegative x := by
  unfold nonNegative larger
  split_ifs with hpos
  · exact h
  · exact le_of_not_lt h zero_le_zero hpos

end Scalar

end Storyboard
