import Storyboard.Number.Double

/-!
# The order of double precision numbers

Numbers in double precision compare as their unpacked forms do.  A finite number is
no not-a-number, and without those the order is total.
-/

namespace Storyboard

open Float.Model

/-- Unpacked numbers that are no not-a-number compare both ways, with opposite results. -/
theorem compare_unpacked {u v : UnpackedFloat} (hu : u ≠ .notANumber)
    (hv : v ≠ .notANumber) :
    ∃ o, u.compare v = some o ∧ v.compare u = some o.swap := by
  have hsigns : ∀ s s' : UnpackedFloat.Sign, compare s' s = (compare s s').swap := by
    intro s s'
    cases s <;> cases s' <;> rfl
  cases u with
  | notANumber => exact absurd rfl hu
  | infinity s =>
      cases v with
      | notANumber => exact absurd rfl hv
      | infinity s' => exact ⟨_, rfl, congrArg some (hsigns s s')⟩
      | zero s' => cases s <;> exact ⟨_, rfl, rfl⟩
      | finite s' m e h => cases s <;> exact ⟨_, rfl, rfl⟩
  | zero s =>
      cases v with
      | notANumber => exact absurd rfl hv
      | infinity s' => cases s' <;> exact ⟨_, rfl, rfl⟩
      | zero s' => exact ⟨_, rfl, rfl⟩
      | finite s' m e h => cases s' <;> exact ⟨_, rfl, rfl⟩
  | finite s m e h =>
      cases v with
      | notANumber => exact absurd rfl hv
      | infinity s' => cases s' <;> cases s <;> exact ⟨_, rfl, rfl⟩
      | zero s' => cases s <;> exact ⟨_, rfl, rfl⟩
      | finite s' m' e' h' =>
          have hparts : (compare e' e).then (compare m' m) =
              ((compare e e').then (compare m m')).swap := by
            rw [Ordering.swap_then, ← Std.OrientedOrd.eq_swap, ← Std.OrientedOrd.eq_swap]
          cases s <;> cases s' <;>
            first
            | exact ⟨_, rfl, rfl⟩
            | exact ⟨_, rfl, congrArg some hparts⟩
            | exact ⟨_, rfl, congrArg (fun o => some (Ordering.swap o)) hparts⟩

theorem float_le_iff (x y : Float) :
    x ≤ y ↔ (x.toModel.unpack.le y.toModel.unpack) = true := by
  change decide (x.toModel ≤ y.toModel) = true ↔ _
  exact decide_eq_true_iff

theorem float_lt_iff (x y : Float) :
    x < y ↔ (x.toModel.unpack.lt y.toModel.unpack) = true := by
  change decide (x.toModel < y.toModel) = true ↔ _
  exact decide_eq_true_iff

theorem unpack_ne_of_isFinite {x : Float} (h : Scalar.isFinite x = true) :
    x.toModel.unpack ≠ .notANumber := by
  intro hnan
  have hdifference : (x - x).toModel.unpack = .notANumber := by
    change (pack (UnpackedFloat.sub Format.binary64 x.toModel.unpack x.toModel.unpack)).unpack
      = _
    rw [hnan]
    rfl
  have hle : ((x - x).toModel.unpack.le (x - x).toModel.unpack) = true := by
    simpa [Scalar.isFinite, float_le_iff] using h
  rw [hdifference] at hle
  cases hle

theorem float_le_of_not_lt {x y : Float} (hx : Scalar.isFinite x = true)
    (hy : Scalar.isFinite y = true) (h : ¬ y < x) : x ≤ y := by
  obtain ⟨o, hxy, hyx⟩ := compare_unpacked (unpack_ne_of_isFinite hx) (unpack_ne_of_isFinite hy)
  rw [float_lt_iff, UnpackedFloat.lt, hyx] at h
  rw [float_le_iff, UnpackedFloat.le, hxy]
  revert h
  cases o <;> decide

theorem float_not_lt_self (x : Float) : ¬ x < x := by
  rw [float_lt_iff, UnpackedFloat.lt]
  cases hnan : x.toModel.unpack with
  | notANumber => decide
  | infinity | zero | finite =>
      have hne : x.toModel.unpack ≠ .notANumber := by
        rw [hnan]
        exact nofun
      obtain ⟨o, ho, hswap⟩ := compare_unpacked hne hne
      rw [hnan] at ho hswap
      rw [ho] at hswap ⊢
      revert hswap
      cases o <;> decide

end Storyboard
