import Storyboard.Proofs.Space.Rotation
import Storyboard.Figure.Measure

/-!
# Measurements under rigid motions

A motion that keeps inner and triple products keeps every length, and with it every
measurement: an area is half the length of an outer product, and that is given by inner
products.  A fold turns points about its hinge, which is such a motion.
-/

namespace Storyboard

namespace Vec

section Products

variable {α : Type} [ExactAnalytic α]

theorem cross_dot_cross (v w : Vec α) :
    (v.cross w).dot (v.cross w) = v.dot v * w.dot w - v.dot w * v.dot w := by
  simp only [cross, dot]
  ring

namespace IsRigid

variable {move : Vec α → Vec α} (h : IsRigid move)

include h

theorem length_sub (p q : Vec α) : (move p - move q).length = (p - q).length := by
  rw [length, h.dot, length]

theorem length_cross (p q r t : Vec α) :
    ((move p - move q).cross (move r - move t)).length = ((p - q).cross (r - t)).length := by
  rw [length, length, cross_dot_cross, cross_dot_cross, h.dot, h.dot, h.dot]

theorem distance (p q : Vec α) : (move p).distance (move q) = p.distance q :=
  h.length_sub p q

theorem angleAt (p o q : Vec α) : (move p).angleAt (move o) (move q) = p.angleAt o q := by
  simp only [Vec.angleAt, h.length_sub, h.dot]

theorem angleToPlane (p q a b c : Vec α) :
    (move p).angleToPlane (move q) (move a) (move b) (move c) = p.angleToPlane q a b c := by
  simp only [Vec.angleToPlane, h.length_sub, h.length_cross, h.triple]

theorem areaOfTriangle (a b c : Vec α) :
    (move a).areaOfTriangle (move b) (move c) = a.areaOfTriangle b c := by
  rw [Vec.areaOfTriangle, h.length_cross, Vec.areaOfTriangle]

theorem volumeOfTetrahedron (a b c d : Vec α) :
    (move a).volumeOfTetrahedron (move b) (move c) (move d) = a.volumeOfTetrahedron b c d := by
  rw [Vec.volumeOfTetrahedron, h.triple, Vec.volumeOfTetrahedron]

/-- A measurement has the same value, or the same fault, before and after a rigid motion. -/
theorem value_map (m : Measurement) (points : List (Vec α)) :
    m.value (points.map move) = m.value points := by
  have hcount : ∀ (points : List (Vec α)) (needs : String),
      (.error (m.wrongCount needs (points.map move)) : Except Fault α) =
        .error (m.wrongCount needs points) := by
    intro points needs
    rw [Measurement.wrongCount, List.length_map, Measurement.wrongCount]
  unfold Measurement.value
  cases m.kind with
  | distance =>
      match points with
      | [a, b] => exact congrArg Except.ok (h.distance a b)
      | [] | [_] | _ :: _ :: _ :: _ => exact hcount _ _
  | angle =>
      match points with
      | [p, o, q] => exact congrArg Except.ok (h.angleAt p o q)
      | [p, q, a, b, c] => exact congrArg Except.ok (h.angleToPlane p q a b c)
      | [] | [_] | [_, _] | [_, _, _, _] | _ :: _ :: _ :: _ :: _ :: _ :: _ => exact hcount _ _
  | area =>
      match points with
      | [a, b, c] => exact congrArg Except.ok (h.areaOfTriangle a b c)
      | [a, b, c, d] =>
          exact congrArg Except.ok
            (congrArg₂ (· + ·) (h.areaOfTriangle a b c) (h.areaOfTriangle a c d))
      | [] | [_] | [_, _] | _ :: _ :: _ :: _ :: _ :: _ => exact hcount _ _
  | volume =>
      match points with
      | [a, b, c, d] => exact congrArg Except.ok (h.volumeOfTetrahedron a b c d)
      | [] | [_] | [_, _] | [_, _, _] | _ :: _ :: _ :: _ :: _ :: _ => exact hcount _ _

end IsRigid

end Products

/--
Turning about the axis of a hinge, by a sine and a cosine on the unit circle, keeps inner and
triple products and distances, leaves the points of the axis where they are, and is undone by
turning back.  Turning by no angle does nothing, and half a turn takes every point to its
mirror image in the axis.  Every measurement has the same value of the turned points, also
when it has the wrong number of them.  Where roots are roots, this is how points are folded.
-/
theorem turning_keeps_shape {α : Type} [ExactAnalytic α] {a b axis : Vec α}
    (haxis : axis.IsAxis a b) {sine cosine : α} (hcircle : sine * sine + cosine * cosine = 1) :
    IsRigid (fun p => turnAbout a axis p sine cosine) ∧
      (∀ p q, (turnAbout a axis p sine cosine).distance (turnAbout a axis q sine cosine) =
        p.distance q) ∧
      (∀ t, turnAbout a axis (along a b t) sine cosine = along a b t) ∧
      (∀ p, turnAbout a axis (turnAbout a axis p sine cosine) (-sine) cosine = p) ∧
      (∀ p, turnAbout a axis p 0 1 = p) ∧
      (∀ p, IsMirrorImage a b p (turnAbout a axis p 0 (-1))) ∧
      (∀ (m : Measurement) points,
        m.value (points.map fun p => turnAbout a axis p sine cosine) = m.value points) ∧
      (ExactRoots α → ∀ angle, Analytic.sin angle = sine → Analytic.cos angle = cosine →
        ∀ p, p.rotate? a b angle = some (turnAbout a axis p sine cosine)) := by
  have hrigid := isRigid_turnAbout a haxis.unit hcircle
  refine ⟨hrigid, hrigid.distance, fun t => haxis.turnAbout_along t sine cosine,
    turnAbout_back haxis.unit hcircle a, turnAbout_zero_one a axis,
    haxis.isMirrorImage_turnAbout, hrigid.value_map, ?_⟩
  rintro hroots angle rfl rfl p
  exact haxis.rotate?_eq p angle

/-- A quarter turn about an upright hinge takes a point on the first axis to the second. -/
theorem turning_keeps_shape_upright :
    IsAxis (⟨0, 0, 1⟩ : Vec ℝ) 0 ⟨0, 0, 2⟩ ∧
      (⟨1, 0, 0⟩ : Vec ℝ).rotate? 0 ⟨0, 0, 2⟩ (Real.pi / 2) = some ⟨0, 1, 0⟩ ∧
      ∀ m : Measurement, m.value [(⟨0, 1, 0⟩ : Vec ℝ), 0, ⟨0, 0, 1⟩] =
        m.value [(⟨1, 0, 0⟩ : Vec ℝ), 0, ⟨0, 0, 1⟩] := by
  have haxis : IsAxis (⟨0, 0, 1⟩ : Vec ℝ) 0 ⟨0, 0, 2⟩ := by
    refine ⟨by simp [dot], 2, two_pos, ?_⟩
    ext <;> simp [zero_eq, sub_eq, scale_eq]
  have hcircle : (1 : ℝ) * 1 + 0 * 0 = 1 := by norm_num
  obtain ⟨-, -, -, -, -, -, hvalue, hrotate⟩ := turning_keeps_shape haxis hcircle
  have hturned : ∀ p : Vec ℝ, turnAbout 0 ⟨0, 0, 1⟩ p 1 0 = ⟨-p.y, p.x, p.z⟩ := by
    intro p
    ext <;> simp [turnAbout, turn, cross, dot, zero_eq, add_eq, sub_eq, scale_eq]
  refine ⟨haxis, ?_, fun m => ?_⟩
  · rw [hrotate inferInstance (Real.pi / 2) Real.sin_pi_div_two Real.cos_pi_div_two, hturned,
      neg_zero]
  · have hsame := hvalue m [⟨1, 0, 0⟩, 0, ⟨0, 0, 1⟩]
    simp only [List.map, hturned] at hsame
    rw [← hsame, zero_eq, neg_zero]

end Vec

end Storyboard
