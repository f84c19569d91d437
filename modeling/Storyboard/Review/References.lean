import Storyboard.Model.Basic

/-!
# References

The names of a model that a script may refer to: the points, which are the
origin, the vertices, the declared points and every point named by a fold, and
the folds and measurements.
-/

namespace Storyboard

/-- The names that a script may refer to. -/
structure References where
  points : OrderedSet String
  folds : OrderedSet String
  measurements : OrderedSet String

namespace References

/-- The points named by a fold. -/
def foldPoints {α : Type} (f : Fold α) : List String :=
  f.folded ++ f.moving ++ [f.hinge.1, f.hinge.2]

/-- The names of a model. -/
def ofModel {α : Type} (m : Model α) : References where
  points := OrderedSet.ofElements
    (m.solid.kind.vertexIds ++ m.points.map (fun p => p.id) ++ m.folds.flatMap foldPoints ++
      [centerId])
  folds := OrderedSet.ofElements (m.folds.map fun f => f.id)
  measurements := OrderedSet.ofElements (m.measurements.map fun d => d.id)

/-- Whether a name is a point. -/
def isPoint (refs : References) (id : String) : Bool :=
  id == centerId || refs.points.contains id

end References

/-- Names in the order of their code points. -/
def sortedIds (ids : List String) : List String := ids.mergeSort fun a b => decide (a ≤ b)

end Storyboard
