import Storyboard.Review.Script

/-!
# What a review finds

A review only adds to what it has found.  In particular it reports every step that
could not be read.
-/

namespace Storyboard

variable {α : Type} [Scalar α] [NumberText α] {refs : References}

/-! ## Nothing is taken back -/

theorem Progress.defects_subset_reviewSteps (scope : Progress) (steps : List (Place × Step α)) :
    scope.defects ⊆ (scope.reviewSteps refs steps).defects := by
  induction steps generalizing scope with
  | nil => exact List.Subset.refl _
  | cons e rest ih =>
      exact List.Subset.trans (List.subset_append_left _ _) (ih (scope.review refs e))

theorem Script.defects_subset_reviewFrom (earlier : List String) (scope : Progress) (i : Nat)
    (scenes : List (Scene α)) :
    scope.defects ⊆ (reviewFrom refs earlier scope i scenes).defects := by
  induction scenes generalizing earlier scope i with
  | nil => exact List.Subset.refl _
  | cons s rest ih =>
      have hscene : scope.defects ⊆ (s.review refs earlier scope i).defects :=
        List.Subset.trans (List.subset_append_left _ _)
          (Progress.defects_subset_reviewSteps
            (scope.add (s.openingDefects refs earlier scope.created i)) (s.located i))
      exact List.Subset.trans hscene (ih _ _ _)

/-! ## What could not be read is reported -/

variable {place : Place} {u : Unread}

theorem Progress.defect_mem_reviewSteps {scope : Progress} {steps : List (Place × Step α)}
    (h : (place, .unread u) ∈ steps) :
    u.defect place ∈ (scope.reviewSteps refs steps).defects := by
  induction steps generalizing scope with
  | nil => exact absurd h List.not_mem_nil
  | cons e rest ih =>
      rcases List.mem_cons.mp h with rfl | h
      · refine defects_subset_reviewSteps _ rest (List.mem_append_right _ ?_)
        exact List.mem_append_right _ (List.mem_singleton_self _)
      · exact ih h

theorem Script.defect_mem_reviewFrom {earlier : List String} {scope : Progress} {i : Nat}
    {scenes : List (Scene α)}
    (h : (place, .unread u) ∈ (scenes.zipIdx i).flatMap fun (s, j) => s.located j) :
    u.defect place ∈ (reviewFrom refs earlier scope i scenes).defects := by
  induction scenes generalizing earlier scope i with
  | nil => exact absurd h List.not_mem_nil
  | cons s rest ih =>
      rw [List.zipIdx_cons, List.flatMap_cons] at h
      rcases List.mem_append.mp h with h | h
      · exact defects_subset_reviewFrom _ _ _ rest (Progress.defect_mem_reviewSteps h)
      · exact ih h

/-- A step that could not be read is reported. -/
theorem Script.defect_mem_review {standards : Standards α} {m : Model α} {s : Script α}
    (h : (place, .unread u) ∈ s.located) : u.defect place ∈ (s.review standards m).defects :=
  defect_mem_reviewFrom h

end Storyboard
