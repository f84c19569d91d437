import Storyboard.OrderedMap
import Storyboard.Solid.Basic
import Storyboard.Space.Vec

/-!
# Placement of solids

The coordinates of the vertices of a base solid, in the units of its size.  Every
solid is centred at the origin.  A size that would collapse the solid, being
absent, zero or not finite, counts as one.
-/

namespace Storyboard.Solid

variable {α : Type}

/-- A size that does not collapse the solid. -/
def effectiveSize [Scalar α] (size : Option α) : α :=
  match size with
  | some s => if Scalar.isFinite s = true ∧ Scalar.isZero s = false then s else 1
  | none => 1

/-- The corners of a box by half its width, depth and height. -/
def cuboidCorners [Scalar α] (w d h : α) : List (Vec α) :=
  [⟨-w, -d, -h⟩, ⟨w, -d, -h⟩, ⟨w, d, -h⟩, ⟨-w, d, -h⟩,
    ⟨-w, -d, h⟩, ⟨w, -d, h⟩, ⟨w, d, h⟩, ⟨-w, d, h⟩]

/-- The corners of a regular tetrahedron by its edge: the top, then the base. -/
def tetrahedronCorners [Analytic α] (edge : α) : List (Vec α) :=
  let sqrt3 : α := Analytic.sqrt 3.0
  let sqrt6 : α := Analytic.sqrt 6.0
  [⟨0, 0, sqrt6 / 4.0 * edge⟩,
    ⟨-edge / 2.0, -sqrt3 / 6.0 * edge, -sqrt6 / 12.0 * edge⟩,
    ⟨edge / 2.0, -sqrt3 / 6.0 * edge, -sqrt6 / 12.0 * edge⟩,
    ⟨0, sqrt3 / 3.0 * edge, -sqrt6 / 12.0 * edge⟩]

/-- The corners of a square in the plane of the first two axes by half its side. -/
def squareCorners [Scalar α] (h : α) : List (Vec α) :=
  [⟨-h, -h, 0⟩, ⟨h, -h, 0⟩, ⟨h, h, 0⟩, ⟨-h, h, 0⟩]

/-- The corners of a solid in the order of its vertex names, if it can be placed. -/
def corners? [Analytic α] (solid : Solid α) : Option (List (Vec α)) :=
  match solid.kind with
  | .cube =>
    let h := effectiveSize solid.size / 2.0
    some (cuboidCorners h h h)
  | .cuboid =>
    let (a, b, c) := solid.dimensions.getD (1, 1, 1)
    some (cuboidCorners (effectiveSize (some a) / 2.0) (effectiveSize (some b) / 2.0)
      (effectiveSize (some c) / 2.0))
  | .tetrahedron => some (tetrahedronCorners (effectiveSize solid.size))
  | .square => some (squareCorners (effectiveSize solid.size / 2.0))
  | .prism | .pyramid | .other => none

/-- The vertices of a solid with their coordinates, if it can be placed. -/
def vertices? [Analytic α] (solid : Solid α) : Option (OrderedMap String (Vec α)) :=
  solid.corners?.map fun corners =>
    OrderedMap.ofList (solid.kind.vertexIds.zip corners)

end Storyboard.Solid
