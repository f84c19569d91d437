import Storyboard.Figure.Measure
import Storyboard.Figure.Movement

/-!
# Surveys

Everything about a figure under one setting: the vertices, every declared and
every folded point once, every measurement, and the edges and faces of the solid.
A survey is complete or fails with the first fault.
-/

namespace Storyboard

/-- A located point, and whether it can move. -/
structure LocatedPoint (α : Type) where
  position : Vec α
  moves : Bool
  deriving DecidableEq, Inhabited

/-- A figure with all that it names located and measured. -/
structure Survey (α : Type) where
  vertices : OrderedMap String (Vec α)
  points : OrderedMap String (LocatedPoint α)
  measurements : OrderedMap String α
  edges : List (String × String)
  faces : List (List String)

namespace Figure

variable {α : Type} [Analytic α]

/-- A point located under a setting, with the answer whether it can move. -/
def locatedPoint (fig : Figure α) (setting : Setting α) (id : String) :
    Except Fault (LocatedPoint α) := do
  let position ← fig.locate setting id
  let moves ← fig.moves id
  return ⟨position, moves⟩

/-- The survey of a figure under a setting. -/
def survey (fig : Figure α) (setting : Setting α) : Except Fault (Survey α) := do
  let ids := OrderedSet.ofElements
    (fig.model.points.map (fun p => p.id) ++ fig.model.foldedPoints)
  let points ← ids.keys.mapM fun id =>
    (fig.locatedPoint setting id).map fun p => (id, p)
  let measurements ← fig.model.measurements.mapM fun m =>
    (fig.measure setting m.id).map fun v => (m.id, v)
  return {
    vertices := fig.vertices
    points := OrderedMap.ofList points
    measurements := OrderedMap.ofList measurements
    edges := fig.model.solid.kind.edges
    faces := fig.model.solid.kind.faces }

end Figure

end Storyboard
