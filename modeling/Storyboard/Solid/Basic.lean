/-!
# Solids

The base solids of a model with their vertices, edges and faces by name.  The
faces are listed counterclockwise as seen from outside.  Prisms and pyramids are
known by name only, and every other name stands for an unknown solid.
-/

namespace Storyboard

/-- The shapes a model may start from. -/
inductive SolidKind where
  | cube
  | cuboid
  | tetrahedron
  | square
  | prism
  | pyramid
  | other
  deriving DecidableEq, Inhabited

namespace SolidKind

def name : SolidKind → String
  | cube => "cube"
  | cuboid => "cuboid"
  | tetrahedron => "tetrahedron"
  | square => "square"
  | prism => "prism"
  | pyramid => "pyramid"
  | other => "other"

/-- The shape of a name; a name that is not one of the known shapes means another. -/
def ofName (name : String) : SolidKind :=
  ([cube, cuboid, tetrahedron, square, prism, pyramid].find? fun kind =>
    kind.name == name).getD other

/-- The names of the vertices in their canonical order. -/
def vertexIds : SolidKind → List String
  | cube | cuboid => ["A", "B", "C", "D", "A1", "B1", "C1", "D1"]
  | tetrahedron | square => ["A", "B", "C", "D"]
  | prism | pyramid | other => []

/-- The edges as pairs of vertices. -/
def edges : SolidKind → List (String × String)
  | cube | cuboid =>
    [("A", "B"), ("B", "C"), ("C", "D"), ("D", "A"),
      ("A1", "B1"), ("B1", "C1"), ("C1", "D1"), ("D1", "A1"),
      ("A", "A1"), ("B", "B1"), ("C", "C1"), ("D", "D1")]
  | tetrahedron =>
    [("A", "B"), ("B", "C"), ("C", "A"), ("A", "D"), ("B", "D"), ("C", "D")]
  | square => [("A", "B"), ("B", "C"), ("C", "D"), ("D", "A")]
  | prism | pyramid | other => []

/-- The faces as cycles of vertices; a square is split along its diagonal. -/
def faces : SolidKind → List (List String)
  | cube | cuboid =>
    [["A", "D", "C", "B"], ["A1", "B1", "C1", "D1"], ["A", "B", "B1", "A1"],
      ["B", "C", "C1", "B1"], ["C", "D", "D1", "C1"], ["D", "A", "A1", "D1"]]
  | tetrahedron =>
    [["A", "B", "C"], ["A", "D", "B"], ["B", "D", "C"], ["C", "D", "A"]]
  | square => [["A", "B", "D"], ["B", "C", "D"]]
  | prism | pyramid | other => []

end SolidKind

/-- A shape with its declared size. -/
structure Solid (α : Type) where
  kind : SolidKind
  size : Option α
  /-- Width, depth and height of a cuboid. -/
  dimensions : Option (α × α × α)
  deriving DecidableEq, Inhabited

end Storyboard
