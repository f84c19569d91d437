import Storyboard.Proofs.Number.Double
import Storyboard.Proofs.Number.Exact
import Storyboard.Proofs.Review.StepDefects
import Storyboard.Review.Repair

/-!
# Cameras brought into bounds

A repair leaves a camera with no defect that can be mended, and with none that it
did not have before.  For this finite numbers have to be in order, as they are
exactly and in double precision.
-/

namespace Storyboard

/-- Scalars in order as far as they are finite, with the bounds of an elevation among these. -/
class FiniteOrder (α : Type) [Scalar α] : Prop where
  not_lt_self : ∀ x : α, ¬ x < x
  le_of_not_lt : ∀ {x y : α}, Scalar.isFinite x = true → Scalar.isFinite y = true →
    ¬ y < x → x ≤ y
  isFinite_zero : Scalar.isFinite (0 : α) = true
  isFinite_zenith : Scalar.isFinite (zenith : α) = true
  zenith_nonneg : (0 : α) ≤ zenith

instance {α : Type} [ExactScalar α] : FiniteOrder α where
  not_lt_self := lt_irrefl
  le_of_not_lt := fun _ _ h => not_lt.mp h
  isFinite_zero := by simp [Scalar.isFinite]
  isFinite_zenith := by simp [Scalar.isFinite]
  zenith_nonneg := ExactScalar.literal_nonneg _ _ _

instance : FiniteOrder Float where
  not_lt_self := float_not_lt_self
  le_of_not_lt := float_le_of_not_lt
  isFinite_zero := by decide +kernel
  isFinite_zenith := by decide +kernel
  zenith_nonneg := by decide +kernel

namespace Camera

variable {α : Type} [Scalar α] [NumberText α] [FiniteOrder α]

/-- An elevation without defects, if it is finite and within its bounds. -/
theorem elevationDefects_eq_nil {path : String} {phi : α}
    (hfinite : Scalar.isFinite phi = true) (hlow : ¬ phi < 0) (hhigh : ¬ zenith < phi) :
    elevationDefects path phi = [] := by
  have h0 : (0 : α) ≤ phi := FiniteOrder.le_of_not_lt FiniteOrder.isFinite_zero hfinite hlow
  have hzenith : phi ≤ zenith :=
    FiniteOrder.le_of_not_lt hfinite FiniteOrder.isFinite_zenith hhigh
  simp [elevationDefects, hfinite, Finding.when, h0, hzenith]

/-- Once an elevation that is out of bounds has been clamped it has no defect. -/
theorem elevationDefects_clamp {path : String} {phi : α} (h : phi < 0 ∨ zenith < phi) :
    elevationDefects path (Scalar.clamp 0 zenith phi) = [] := by
  have hrefl : (0 : α) ≤ 0 := FiniteOrder.le_of_not_lt FiniteOrder.isFinite_zero
    FiniteOrder.isFinite_zero (FiniteOrder.not_lt_self 0)
  have hrefl' : (zenith : α) ≤ zenith := FiniteOrder.le_of_not_lt
    FiniteOrder.isFinite_zenith FiniteOrder.isFinite_zenith (FiniteOrder.not_lt_self zenith)
  unfold Scalar.clamp
  split_ifs with hlow hhigh
  · simp [elevationDefects, FiniteOrder.isFinite_zero, Finding.when, hrefl,
      FiniteOrder.zenith_nonneg]
  · simp [elevationDefects, FiniteOrder.isFinite_zenith, Finding.when, hrefl',
      FiniteOrder.zenith_nonneg]
  · exact absurd h (not_or.mpr ⟨hlow, hhigh⟩)

/-- Within its bounds an elevation has at most the defect that it is not finite. -/
theorem isMendable_of_mem_elevationDefects {path : String} {phi : α} (hlow : ¬ phi < 0)
    (hhigh : ¬ zenith < phi) {d : Finding Defect} (h : d ∈ elevationDefects path phi) :
    d.kind.isMendable = false := by
  cases hfinite : Scalar.isFinite phi with
  | true =>
      rw [elevationDefects_eq_nil hfinite hlow hhigh] at h
      exact absurd h List.not_mem_nil
  | false =>
      rw [elevationDefects, if_pos hfinite] at h
      obtain rfl := List.mem_singleton.mp h
      rfl

/-- The more names have been claimed, the fewer shots look at nothing. -/
theorem lookAtDefects_mono {refs : References} {created created' : List String}
    (hcreated : created ⊆ created') {lookAt path message : String} {d : Finding Defect}
    (h : d ∈ Finding.when (!refs.isPoint lookAt && !created'.contains lookAt)
      .missingReference path message) :
    d ∈ Finding.when (!refs.isPoint lookAt && !created.contains lookAt)
      .missingReference path message := by
  refine Finding.mem_when_of_imp (fun hmissing => ?_) h
  simp only [Bool.and_eq_true, Bool.not_eq_true', List.contains_eq_mem,
    decide_eq_false_iff_not] at hmissing ⊢
  exact ⟨hmissing.1, fun hmem => hmissing.2 (hcreated hmem)⟩

/-- A repaired camera has only defects that it had before and that cannot be mended. -/
theorem mem_defects_repaired {refs : References} {created created' : List String}
    (hcreated : created ⊆ created') {path : String} {c : Camera α} {d : Finding Defect}
    (h : d ∈ (c.repaired path).1.defects refs created' path) :
    d.kind.isMendable = false ∧ d ∈ c.defects refs created path := by
  cases c with
  | preset name =>
      unfold repaired at h
      cases hname : (Preset.ofName? name).isNone with
      | true =>
          have hstandard : (Preset.ofName? Preset.standard.name).isNone = false := by decide
          simp [hname, defects, Finding.when, hstandard] at h
      | false => simp [hname, defects, Finding.when] at h
  | unread raw =>
      obtain rfl := List.mem_singleton.mp h
      exact ⟨rfl, h⟩
  | full shot =>
      unfold repaired at h
      by_cases hbounds : shot.position.phi < 0 ∨ zenith < shot.position.phi
      · simp only [if_pos hbounds, defects, elevationDefects_clamp hbounds,
          List.nil_append] at h
        refine ⟨Finding.isMendable_of_mem_when rfl h, ?_⟩
        exact List.mem_append_right _ (lookAtDefects_mono hcreated h)
      · obtain ⟨hlow, hhigh⟩ := not_or.mp hbounds
        simp only [if_neg hbounds, defects] at h
        rcases List.mem_append.mp h with h | h
        · exact ⟨isMendable_of_mem_elevationDefects hlow hhigh h, List.mem_append_left _ h⟩
        · refine ⟨Finding.isMendable_of_mem_when rfl h, ?_⟩
          exact List.mem_append_right _ (lookAtDefects_mono hcreated h)

end Camera

end Storyboard
