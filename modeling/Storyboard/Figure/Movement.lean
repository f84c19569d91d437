import Storyboard.Figure.Location

/-!
# Movement of points

Whether the place of a point can change with the parameters and the folds of its
figure.  The question follows every reference of a declaration, whether or not
its kind makes use of it, along the same chains as the location of a point.
-/

namespace Storyboard.Figure

variable {α : Type}

set_option linter.unusedVariables false in
/--
Whether a point within a chain can move.  It can if it is folded or on a segment,
and it does if one of the points it refers to does; the search ends at the first.
-/
def movesIn (fig : Figure α) (chain : List String) (id : String) : Except Fault Bool :=
  if id = centerId then .ok false
  else if fig.isFolded id then .ok true
  else if fig.vertices.contains id then .ok false
  else
    match hdef : fig.definition? id with
    | none => .error (.unknownPoint id)
    | some definition =>
      if definition.kind = .onSegment then .ok true
      else if hchain : id ∈ chain then .error (.cyclic (chain ++ [id]))
      else definition.references.anyM fun p => movesIn fig (chain ++ [id]) p
termination_by fig.unplaced chain
decreasing_by exact unplaced_lt hdef hchain

/-- Whether the place of a point can change with parameters or folds. -/
def moves (fig : Figure α) (id : String) : Except Fault Bool := fig.movesIn [] id

end Storyboard.Figure
