import Mathlib.Tactic.LinearCombination
import Storyboard.Proofs.Number.Exact
import Storyboard.Space.Vec

/-!
# Rotations

A displacement is turned by the sine and the cosine of an angle.  With exact numbers,
about a unit vector and with a sine and a cosine on the unit circle, turning keeps inner
and outer products, so that it keeps every shape.  Turning twice adds the angles, from
which follow the turn that does nothing and the one that turns back.
-/

namespace Storyboard.Vec

section Turn

variable {α : Type} [ExactScalar α]

theorem zero_eq : (0 : Vec α) = ⟨0, 0, 0⟩ := rfl

theorem add_eq (a b : Vec α) : a + b = ⟨a.x + b.x, a.y + b.y, a.z + b.z⟩ := rfl

theorem sub_eq (a b : Vec α) : a - b = ⟨a.x - b.x, a.y - b.y, a.z - b.z⟩ := rfl

theorem scale_eq (a : Vec α) (s : α) : a * s = ⟨a.x * s, a.y * s, a.z * s⟩ := rfl

theorem sub_add_self (a b : Vec α) : a - b + b = a := by
  ext <;> simp only [add_eq, sub_eq] <;> ring

theorem turn_zero_one (axis v : Vec α) : turn axis v 0 1 = v := by
  ext <;> simp only [turn, cross, dot, add_eq, scale_eq] <;> ring

theorem turnAbout_zero_one (origin axis p : Vec α) : turnAbout origin axis p 0 1 = p := by
  rw [turnAbout, turn_zero_one, sub_add_self]

theorem turnAbout_sub_origin (origin axis p : Vec α) (s c : α) :
    turnAbout origin axis p s c - origin = turn axis (p - origin) s c := by
  ext <;> simp only [turnAbout, add_eq, sub_eq] <;> ring

theorem turnAbout_sub_turnAbout (origin axis p q : Vec α) (s c : α) :
    turnAbout origin axis p s c - turnAbout origin axis q s c = turn axis (p - q) s c := by
  ext <;> simp only [turnAbout, turn, cross, dot, add_eq, sub_eq, scale_eq] <;> ring

variable {axis : Vec α} (hunit : axis.dot axis = 1)

include hunit

/-- A displacement along the axis is not turned. -/
theorem turn_axis (t s c : α) : turn axis (axis * t) s c = axis * t := by
  have hexpand : turn axis (axis * t) s c =
      axis * (t * c + t * (1 - c) * axis.dot axis) := by
    ext <;> simp only [turn, cross, dot, add_eq, scale_eq] <;> ring
  have hlength : t * c + t * (1 - c) * 1 = t := by ring
  rw [hexpand, hunit, hlength]

/-- Turning twice about an axis is turning once, by the sum of the two angles. -/
theorem turn_turn (v : Vec α) (s c s' c' : α) :
    turn axis (turn axis v s c) s' c' = turn axis v (s * c' + c * s') (c * c' - s * s') := by
  have hexpand : turn axis (turn axis v s c) s' c' =
      v * (c * c' - s * s' * axis.dot axis) + axis.cross v * (s * c' + c * s') +
        axis * (axis.dot v *
          (c * (1 - c') + (1 - c) * c' + s * s' + (1 - c) * (1 - c') * axis.dot axis)) := by
    ext <;> simp only [turn, cross, dot, add_eq, scale_eq] <;> ring
  have hacross : c * c' - s * s' * 1 = c * c' - s * s' := by ring
  have halong : c * (1 - c') + (1 - c) * c' + s * s' + (1 - c) * (1 - c') * 1 =
      1 - (c * c' - s * s') := by ring
  rw [hexpand, hunit, hacross, halong, turn]

variable {s c : α} (hcircle : s * s + c * c = 1)

include hcircle

/-- A turn is undone by turning back. -/
theorem turn_back (v : Vec α) : turn axis (turn axis v s c) (-s) c = v := by
  have hsine : s * c + c * -s = 0 := by ring
  have hcosine : c * c - s * -s = 1 := by linear_combination hcircle
  rw [turn_turn hunit, hsine, hcosine, turn_zero_one]

theorem turnAbout_back (origin p : Vec α) :
    turnAbout origin axis (turnAbout origin axis p s c) (-s) c = p := by
  rw [turnAbout, turnAbout_sub_origin, turn_back hunit hcircle, sub_add_self]

theorem dot_turn (v w : Vec α) : (turn axis v s c).dot (turn axis w s c) = v.dot w := by
  have hexpand : (turn axis v s c).dot (turn axis w s c) =
      c * c * v.dot w + s * s * (axis.dot axis * v.dot w - axis.dot v * axis.dot w) +
        (1 - c) * (2 * c + (1 - c) * axis.dot axis) * (axis.dot v * axis.dot w) := by
    simp only [turn, cross, dot, add_eq, scale_eq]
    ring
  rw [hexpand, hunit]
  linear_combination (v.dot w - axis.dot v * axis.dot w) * hcircle

theorem cross_turn (v w : Vec α) :
    (turn axis v s c).cross (turn axis w s c) = turn axis (v.cross w) s c := by
  have hexpand : (turn axis v s c).cross (turn axis w s c) =
      v.cross w * (c * c + c * (1 - c) * axis.dot axis) +
        axis.cross (v.cross w) * (s * c + s * (1 - c) * axis.dot axis) +
        axis * (axis.dot (v.cross w) * (s * s - c * (1 - c))) := by
    ext <;> simp only [turn, cross, dot, add_eq, scale_eq] <;> ring
  have hacross : c * c + c * (1 - c) * 1 = c := by ring
  have hupright : s * c + s * (1 - c) * 1 = s := by ring
  have halong : s * s - c * (1 - c) = 1 - c := by linear_combination hcircle
  rw [hexpand, hunit, hacross, hupright, halong, turn]

end Turn

/-! ## Motions that keep every shape -/

section Rigid

variable {α : Type} [ExactScalar α]

/-- A motion that keeps the inner and the triple products of the ways between points. -/
structure IsRigid (move : Vec α → Vec α) : Prop where
  dot : ∀ p q r t, (move p - move q).dot (move r - move t) = (p - q).dot (r - t)
  triple : ∀ p q r t u v, (move p - move q).dot ((move r - move t).cross (move u - move v)) =
    (p - q).dot ((r - t).cross (u - v))

/-- A unit vector in the direction from `a` to `b`. -/
structure IsAxis (axis a b : Vec α) : Prop where
  unit : axis.dot axis = 1
  direction : ∃ length : α, 0 < length ∧ b - a = axis * length

/--
The mirror image `q` of `p` in the line through `a` and `b`: the middle of the two lies on
the line, and the way from one to the other is upright on it.
-/
structure IsMirrorImage (a b p q : Vec α) : Prop where
  middle : ∃ t : α, midpoint p q = along a b t
  upright : (q - p).dot (b - a) = 0

theorem isRigid_turnAbout (origin : Vec α) {axis : Vec α} (hunit : axis.dot axis = 1) {s c : α}
    (hcircle : s * s + c * c = 1) : IsRigid fun p => turnAbout origin axis p s c where
  dot p q r t := by
    rw [turnAbout_sub_turnAbout, turnAbout_sub_turnAbout, dot_turn hunit hcircle]
  triple p q r t u v := by
    rw [turnAbout_sub_turnAbout, turnAbout_sub_turnAbout, turnAbout_sub_turnAbout,
      cross_turn hunit hcircle, dot_turn hunit hcircle]

namespace IsAxis

variable {axis a b : Vec α} (h : axis.IsAxis a b)

include h

theorem exists_along_eq : ∃ length : α, 0 < length ∧
    ∀ t, along a b t = a + axis * (length * t) := by
  obtain ⟨length, hlength, hway⟩ := h.direction
  refine ⟨length, hlength, fun t => ?_⟩
  rw [along, hway]
  ext <;> simp only [add_eq, scale_eq] <;> ring

theorem turnAbout_along (t s c : α) : turnAbout a axis (along a b t) s c = along a b t := by
  obtain ⟨length, -, halong⟩ := h.exists_along_eq
  have hway : a + axis * (length * t) - a = axis * (length * t) := by
    ext <;> simp only [add_eq, sub_eq] <;> ring
  rw [halong, turnAbout, hway, turn_axis h.unit]
  ext <;> simp only [add_eq] <;> ring

/-- Half a turn takes every point to its mirror image in the axis. -/
theorem isMirrorImage_turnAbout (p : Vec α) :
    IsMirrorImage a b p (turnAbout a axis p 0 (-1)) where
  middle := by
    obtain ⟨length, hlength, halong⟩ := h.exists_along_eq
    refine ⟨axis.dot (p - a) / length, ?_⟩
    rw [halong, mul_div_cancel₀ _ hlength.ne']
    ext <;> simp only [midpoint, turnAbout, turn, cross, dot, add_eq, sub_eq, scale_eq,
      ExactScalar.half_eq] <;> ring
  upright := by
    obtain ⟨length, -, hway⟩ := h.direction
    have hexpand : (turnAbout a axis p 0 (-1) - p).dot (axis * length) =
        2 * length * axis.dot (p - a) * (axis.dot axis - 1) := by
      simp only [turnAbout, turn, cross, dot, add_eq, sub_eq, scale_eq]
      ring
    rw [hway, hexpand, h.unit, sub_self, mul_zero]

end IsAxis

end Rigid

/-! ## The axis of a hinge -/

section Hinge

variable {α : Type} [ExactAnalytic α] {axis a b : Vec α}

theorem dot_self_nonneg (v : Vec α) : 0 ≤ v.dot v :=
  add_nonneg (add_nonneg (mul_self_nonneg v.x) (mul_self_nonneg v.y)) (mul_self_nonneg v.z)

variable [ExactRoots α]

theorem length_mul_self (v : Vec α) : v.length * v.length = v.dot v :=
  ExactRoots.mul_self_sqrt v.dot_self_nonneg

theorem length_scale (hunit : axis.dot axis = 1) {d : α} (hd : 0 ≤ d) :
    (axis * d).length = d := by
  have hsquare : (axis * d).dot (axis * d) = d * d * axis.dot axis := by
    simp only [dot, scale_eq]
    ring
  have hnonneg : 0 ≤ (axis * d).length := ExactRoots.sqrt_nonneg _
  rw [← mul_self_inj hnonneg hd, length_mul_self, hsquare, hunit, mul_one]

/-- To turn a point about the line from `a` to `b` is to turn it about the axis of the two. -/
theorem IsAxis.rotate?_eq (h : axis.IsAxis a b) (p : Vec α) (angle : α) :
    p.rotate? a b angle = some (turnAbout a axis p (Analytic.sin angle) (Analytic.cos angle)) := by
  obtain ⟨d, hd, hway⟩ := h.direction
  have hlength : (b - a).length = d := by rw [hway, length_scale h.unit hd.le]
  have hdirection : (b - a) * (1 / d : α) = axis := by
    rw [hway]
    ext <;> simp only [scale_eq] <;> field_simp
  rw [rotate?, direction?]
  simp only [hlength, hdirection, hd, ExactScalar.isFinite, and_self, if_true, Option.map_some]

end Hinge

end Storyboard.Vec
