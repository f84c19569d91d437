import Mathlib.Tactic.SplitIfs
import Storyboard.Proofs.Script.Traversal
import Storyboard.Review.Repair

/-!
# Fixes

Every fix of a repair is of a kind that can be mended, so that a defect of another
kind is never counted as fixed.
-/

namespace Storyboard

variable {α : Type}

/-- Fixes of kinds that can be mended. -/
def AreMendable (fixes : List (Fix α)) : Prop := ∀ f ∈ fixes, f.kind.isMendable = true

namespace AreMendable

theorem nil : AreMendable ([] : List (Fix α)) := fun _ h => absurd h List.not_mem_nil

theorem cons {f : Fix α} {fixes : List (Fix α)} (hf : f.kind.isMendable = true)
    (h : AreMendable fixes) : AreMendable (f :: fixes) :=
  List.forall_mem_cons.mpr ⟨hf, h⟩

theorem append {fixes fixes' : List (Fix α)} (h : AreMendable fixes)
    (h' : AreMendable fixes') : AreMendable (fixes ++ fixes') :=
  List.forall_mem_append.mpr ⟨h, h'⟩

end AreMendable

theorem Camera.areMendable_repaired [Scalar α] (path : String) (c : Camera α) :
    AreMendable (c.repaired path).2 := by
  unfold repaired
  split
  next =>
    split
    · exact AreMendable.nil.cons rfl
    · exact AreMendable.nil
  next =>
    dsimp only
    split
    · exact AreMendable.nil.cons rfl
    · exact AreMendable.nil
  next => exact AreMendable.nil

namespace Mending

theorem areMendable_step {m : Mending α} (h : AreMendable m.fixes) (place : Place)
    (s : Step α) : AreMendable (m.step place s).1.fixes := by
  have hgive : ∀ (kind : Defect) (before : Datum α) (id : String),
      kind.isMendable = true → AreMendable (m.give kind (place.field "id") before id).fixes :=
    fun _ _ _ hkind => h.append (AreMendable.nil.cons hkind)
  unfold step
  split
  next =>
    dsimp only
    split_ifs
    · exact hgive _ _ _ rfl
    · exact hgive _ _ _ rfl
    · exact h
  next => exact hgive _ _ _ rfl
  next =>
    split
    · exact h
    · exact h
  next => exact h

theorem areMendable_handOn {m : Mending α} (h : AreMendable m.fixes)
    (steps : List (Place × Step α)) : AreMendable (Action.handOn step m steps).1.fixes := by
  induction steps generalizing m with
  | nil => exact h
  | cons e rest ih => exact ih (areMendable_step h e.1 e.2)

end Mending

namespace Script

theorem areMendable_repairCameras [Scalar α] (i : Nat) (scenes : List (Scene α)) :
    AreMendable (repairCameras i scenes).2 := by
  induction scenes generalizing i with
  | nil => exact AreMendable.nil
  | cons s rest ih => exact (s.camera.areMendable_repaired _).append (ih (i + 1))

theorem areMendable_repairSceneIds (taken : List String) (i : Nat) (scenes : List (Scene α)) :
    AreMendable (repairSceneIds taken i scenes).2 := by
  induction scenes generalizing taken i with
  | nil => exact AreMendable.nil
  | cons s rest ih =>
      rw [repairSceneIds]
      split_ifs
      · exact (ih _ _).cons rfl
      · exact ih _ _

theorem areMendable_repairActions {m : Mending α} (h : AreMendable m.fixes) (i : Nat)
    (scenes : List (Scene α)) : AreMendable (repairActions m i scenes).2.fixes := by
  induction scenes generalizing m i with
  | nil => exact h
  | cons s rest ih =>
      have hscene : AreMendable
          (Action.traverseFrom Mending.step (Place.ofScene i) 0 m s.actions).1.fixes := by
        rw [(Action.locatedFrom_traverseFrom _ _ _ _ _).1]
        exact Mending.areMendable_handOn h _
      exact ih hscene (i + 1)

theorem areMendable_mended [Scalar α] (s : Script α) : AreMendable s.mended.2 :=
  ((areMendable_repairCameras 0 _).append (areMendable_repairSceneIds [] 0 _)).append
    (areMendable_repairActions AreMendable.nil 0 _)

theorem isFixed_mended_eq_false [Scalar α] (s : Script α) {d : Finding Defect}
    (h : d.kind.isMendable = false) : isFixed s.mended.2 d = false := by
  rw [isFixed, List.any_eq_false]
  intro f hf hsame
  obtain ⟨hkind, -⟩ := of_decide_eq_true hsame
  rw [← hkind, s.areMendable_mended f hf] at h
  cases h

end Script

end Storyboard
