import Storyboard.Proofs.Space.Rotation
import Storyboard.Solid.Placement

/-!
# How the faces of a solid wind

The faces are listed so that the normal of their first three vertices points away from
the solid.  With exact numbers the normals and the centroids are polynomials in the
sizes: how far a normal points outward is the product of the three sizes, up to a
positive factor.  So every face winds outward if the product is positive, and inward if
it is negative, as for a cube of negative size.
-/

namespace Storyboard.Solid

open Vec

variable {α : Type} [ExactAnalytic α]

/-! ## Outwardness -/

/--
The inner product of the normal of the first three corners of a face and its centroid.  It
is positive if the normal points away from the origin.
-/
def outwardness : List (Vec α) → α
  | a :: b :: c :: rest => ((b - a).cross (c - a)).dot (mean (a :: b :: c :: rest))
  | _ => 0

theorem outwardness_three (a b c : Vec α) :
    outwardness [a, b, c] = ((b - a).cross (c - a)).dot (a + b + c) / 3 := by
  simp only [outwardness, mean, List.foldl, List.length, cross, dot, zero_eq, add_eq, sub_eq,
    scale_eq]
  push_cast
  ring

theorem outwardness_four (a b c d : Vec α) :
    outwardness [a, b, c, d] = ((b - a).cross (c - a)).dot (a + b + c + d) / 4 := by
  simp only [outwardness, mean, List.foldl, List.length, cross, dot, zero_eq, add_eq, sub_eq,
    scale_eq]
  push_cast
  ring

/-- The corners of a face by the names of its vertices. -/
def faceCorners? (vertices : OrderedMap String (Vec α)) (face : List String) :
    Option (List (Vec α)) :=
  face.mapM vertices.get?

/-! ## The listed faces -/

theorem boxFace_outwardness (w d h : α) {face : List String}
    (hface : face ∈ SolidKind.cube.faces) :
    ∃ corners,
      faceCorners? (OrderedMap.ofList (SolidKind.cube.vertexIds.zip (cuboidCorners w d h))) face =
        some corners ∧
      outwardness corners = 4 * (w * d * h) := by
  simp only [SolidKind.faces, List.mem_cons, List.not_mem_nil, or_false] at hface
  rcases hface with rfl | rfl | rfl | rfl | rfl | rfl
  all_goals
    refine ⟨[_, _, _, _], rfl, ?_⟩
    simp only [outwardness_four, cross, dot, add_eq, sub_eq]
    ring

theorem tetrahedronFace_outwardness (edge : α) {face : List String}
    (hface : face ∈ SolidKind.tetrahedron.faces) :
    ∃ corners,
      faceCorners? (OrderedMap.ofList
        (SolidKind.tetrahedron.vertexIds.zip (tetrahedronCorners edge))) face = some corners ∧
      outwardness corners =
        Analytic.sqrt 3 * Analytic.sqrt 6 / 24 * (edge * edge * edge) := by
  have h2 : (2.0 : α) = 2 := ExactScalar.whole_eq 2
  have h3 : (3.0 : α) = 3 := ExactScalar.whole_eq 3
  have h4 : (4.0 : α) = 4 := ExactScalar.whole_eq 4
  have h6 : (6.0 : α) = 6 := ExactScalar.whole_eq 6
  have h12 : (12.0 : α) = 12 := ExactScalar.whole_eq 12
  simp only [SolidKind.faces, List.mem_cons, List.not_mem_nil, or_false] at hface
  rcases hface with rfl | rfl | rfl | rfl
  all_goals
    refine ⟨[_, _, _], rfl, ?_⟩
    simp only [outwardness_three, cross, dot, add_eq, sub_eq, h2, h3, h4, h6, h12]
    ring

/-! ## The sizes -/

theorem effectiveSize_ne_zero (size : Option α) : effectiveSize size ≠ 0 := by
  unfold effectiveSize
  split
  next s =>
    split_ifs with h
    · rintro rfl
      simp [Scalar.isZero] at h
    · exact one_ne_zero
  next => exact one_ne_zero

/-- The product of the sizes of a solid along the three axes. -/
def sizeProduct (solid : Solid α) : α :=
  match solid.kind with
  | .cuboid =>
    let (a, b, c) := solid.dimensions.getD (1, 1, 1)
    effectiveSize (some a) * effectiveSize (some b) * effectiveSize (some c)
  | _ => effectiveSize solid.size * effectiveSize solid.size * effectiveSize solid.size

theorem sizeProduct_ne_zero (solid : Solid α) : solid.sizeProduct ≠ 0 := by
  unfold sizeProduct
  split
  · exact mul_ne_zero (mul_ne_zero (effectiveSize_ne_zero _) (effectiveSize_ne_zero _))
      (effectiveSize_ne_zero _)
  · exact mul_ne_zero (mul_ne_zero (effectiveSize_ne_zero _) (effectiveSize_ne_zero _))
      (effectiveSize_ne_zero _)

/-! ## Winding -/

section Roots

variable [ExactRoots α]

/-- One positive factor serves all faces of a solid. -/
theorem exists_outwardness_eq {solid : Solid α}
    (hkind : solid.kind = .cube ∨ solid.kind = .cuboid ∨ solid.kind = .tetrahedron) :
    ∃ vertices, solid.vertices? = some vertices ∧ ∃ factor : α, 0 < factor ∧
      ∀ face ∈ solid.kind.faces, ∃ corners, faceCorners? vertices face = some corners ∧
        outwardness corners = factor * solid.sizeProduct := by
  have hhalves (a b c : α) : 4 * (a / 2.0 * (b / 2.0) * (c / 2.0)) = 1 / 2 * (a * b * c) := by
    rw [ExactScalar.two_eq]
    ring
  obtain ⟨kind, size, dimensions⟩ := solid
  rcases hkind with rfl | rfl | rfl
  · refine ⟨_, rfl, 1 / 2, by norm_num, fun face hface => ?_⟩
    obtain ⟨corners, hcorners, hout⟩ := boxFace_outwardness (effectiveSize size / 2.0)
      (effectiveSize size / 2.0) (effectiveSize size / 2.0) hface
    exact ⟨corners, hcorners, hout.trans (hhalves _ _ _)⟩
  · let sizes := dimensions.getD (1, 1, 1)
    refine ⟨_, rfl, 1 / 2, by norm_num, fun face hface => ?_⟩
    obtain ⟨corners, hcorners, hout⟩ := boxFace_outwardness
      (effectiveSize (some sizes.1) / 2.0) (effectiveSize (some sizes.2.1) / 2.0)
      (effectiveSize (some sizes.2.2) / 2.0) hface
    exact ⟨corners, hcorners, hout.trans (hhalves _ _ _)⟩
  · have hroots : (0 : α) < Analytic.sqrt 3 * Analytic.sqrt 6 :=
      mul_pos (ExactRoots.sqrt_pos (by norm_num)) (ExactRoots.sqrt_pos (by norm_num))
    exact ⟨_, rfl, Analytic.sqrt 3 * Analytic.sqrt 6 / 24, by positivity,
      fun face hface => tetrahedronFace_outwardness (effectiveSize size) hface⟩

/--
The faces of a cube, a cuboid and a tetrahedron wind outward if the product of the sizes is
positive, and inward if it is negative.
-/
theorem faces_wind_outward_iff {solid : Solid α}
    (hkind : solid.kind = .cube ∨ solid.kind = .cuboid ∨ solid.kind = .tetrahedron) :
    solid.sizeProduct ≠ 0 ∧ ∃ vertices, solid.vertices? = some vertices ∧
      ∀ face ∈ solid.kind.faces, ∃ corners, faceCorners? vertices face = some corners ∧
        (0 < outwardness corners ↔ 0 < solid.sizeProduct) ∧
        (outwardness corners < 0 ↔ solid.sizeProduct < 0) := by
  obtain ⟨vertices, hvertices, factor, hfactor, hfaces⟩ := exists_outwardness_eq hkind
  refine ⟨solid.sizeProduct_ne_zero, vertices, hvertices, fun face hface => ?_⟩
  obtain ⟨corners, hcorners, hout⟩ := hfaces face hface
  refine ⟨corners, hcorners, ?_, ?_⟩
  · rw [hout, mul_pos_iff_of_pos_left hfactor]
  · rw [hout, ← smul_eq_mul, smul_neg_iff_of_pos_left hfactor]

/-- Two negative sizes of a cuboid leave its faces outward. -/
theorem faces_wind_outward_twice_mirrored :
    let solid : Solid ℝ := ⟨.cuboid, none, some (-1, 2, -3)⟩
    ∃ vertices, solid.vertices? = some vertices ∧
      ∀ face ∈ solid.kind.faces, ∃ corners, faceCorners? vertices face = some corners ∧
        0 < outwardness corners := by
  intro solid
  have hkind : solid.kind = .cuboid := rfl
  have hproduct : solid.sizeProduct = 6 := by
    norm_num [solid, sizeProduct, effectiveSize, ExactScalar.isFinite, Scalar.isZero]
  obtain ⟨-, vertices, hvertices, hfaces⟩ :=
    faces_wind_outward_iff (.inr (.inl hkind))
  refine ⟨vertices, hvertices, fun face hface => ?_⟩
  obtain ⟨corners, hcorners, hout, -⟩ := hfaces face hface
  refine ⟨corners, hcorners, hout.mpr ?_⟩
  rw [hproduct]
  norm_num

/-- All faces of a cube of negative size wind inward. -/
theorem exists_cube_turned_inside_out :
    ∃ solid : Solid ℝ, solid.kind = .cube ∧ ∃ vertices, solid.vertices? = some vertices ∧
      ∀ face ∈ solid.kind.faces, ∃ corners, faceCorners? vertices face = some corners ∧
        outwardness corners < 0 := by
  let solid : Solid ℝ := ⟨.cube, some (-2), none⟩
  have hkind : solid.kind = .cube := rfl
  have hproduct : solid.sizeProduct < 0 := by
    norm_num [solid, sizeProduct, effectiveSize, ExactScalar.isFinite, Scalar.isZero]
  refine ⟨solid, hkind, ?_⟩
  obtain ⟨vertices, hvertices, factor, hfactor, hfaces⟩ :=
    exists_outwardness_eq (.inl hkind)
  refine ⟨vertices, hvertices, fun face hface => ?_⟩
  obtain ⟨corners, hcorners, hout⟩ := hfaces face hface
  exact ⟨corners, hcorners, hout.trans_lt (mul_neg_of_pos_of_neg hfactor hproduct)⟩

end Roots

end Storyboard.Solid
