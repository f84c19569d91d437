import Storyboard.Figure.Location
import Storyboard.Script.Action

/-!
# Elements

What the creating steps of a script leave behind: lines, paths, planes and
tetrahedra that are drawn through points of the figure.  The registry keeps them
by name in the order of their creation; a later element takes the place of an
earlier one of the same name.
-/

namespace Storyboard

/-- The form of an element. -/
inductive Form (α : Type) where
  | line (start finish : String) (style : LineStyle)
  | path (start finish : String)
  | plane (points : List String) (opacity : α)
  | tetrahedron (vertices : List String) (opacity : α)
  deriving DecidableEq, Inhabited

/-- A named and colored form. -/
structure Element (α : Type) where
  id : String
  color : String
  form : Form α
  deriving DecidableEq, Inhabited

/-- The color of a highlight that has none of its own. -/
def highlightColor : String := "#ff0000"

namespace Shape

variable {α : Type}

/-- The color of an element that has none of its own. -/
def standardColor : Shape α → String
  | .line .. => "#888888"
  | .path .. => "#ffaa00"
  | .plane .. => "#3b82f6"
  | .tetrahedron .. => "#ff6666"

/-- The form of a shape; lines are solid and surfaces are thin unless they say so. -/
def form [Scalar α] : Shape α → Form α
  | .line a b style => .line a b (style.getD .solid)
  | .path a b => .path a b
  | .plane points opacity => .plane points (opacity.getD 0.2)
  | .tetrahedron vertices opacity => .tetrahedron vertices (opacity.getD 0.3)

end Shape

/-- The opacity of a form that has one. -/
def Form.opacity? {α : Type} : Form α → Option α
  | line .. | path .. => none
  | plane _ opacity | tetrahedron _ opacity => some opacity

/-- The points that a form is drawn through. -/
def Form.anchors {α : Type} : Form α → List String
  | line a b _ | path a b => [a, b]
  | plane points _ => points
  | tetrahedron vertices _ => vertices

/-- The coordinates of the points that an element is drawn through. -/
def Element.locate {α : Type} [Analytic α] (e : Element α) (fig : Figure α)
    (setting : Setting α) : Except Fault (List (Vec α)) :=
  e.form.anchors.mapM (fig.locate setting)

/-- Elements by name in the order of creation. -/
abbrev Registry (α : Type) := OrderedMap String (Element α)

/-- Registers an element under its name. -/
def Registry.register {α : Type} (r : Registry α) (e : Element α) : Registry α :=
  OrderedMap.insert r e.id e

end Storyboard
