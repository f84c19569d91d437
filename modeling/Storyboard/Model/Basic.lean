import Storyboard.OrderedMap
import Storyboard.Solid.Basic
import Storyboard.Number.Scalar

/-!
# Geometric models

A model is a base solid together with points, folds, measurements and parameters
that are declared by name.  A declared point may lack what its kind needs; such a
point is carried along and fails when it is located.
-/

namespace Storyboard

/-- How a declared point is placed. -/
inductive PointKind where
  | vertex
  | midpoint
  | ratio
  | onSegment
  | center
  deriving DecidableEq, Inhabited

def PointKind.name : PointKind → String
  | vertex => "vertex"
  | midpoint => "midpoint"
  | ratio => "ratio"
  | onSegment => "onSegment"
  | center => "center"

def PointKind.all : List PointKind := [.vertex, .midpoint, .ratio, .onSegment, .center]

/-- A point declared by name, with whatever its kind may refer to. -/
structure NamedPoint (α : Type) where
  id : String
  kind : PointKind
  of : Option (List String)
  start : Option String
  finish : Option String
  ratio : Option α
  param : Option String
  points : Option (List String)
  deriving DecidableEq, Inhabited

/-- Every point a declared point refers to, in the order of its fields. -/
def NamedPoint.references {α : Type} (p : NamedPoint α) : List String :=
  p.of.getD [] ++ p.start.toList ++ p.finish.toList ++ p.points.getD []

/--
A rotation of some points about the line through two others: each point in
`folded` is the point at the same place of `moving`, turned.
-/
structure Fold (α : Type) where
  id : String
  hinge : String × String
  moving : List String
  folded : List String
  angleParam : Option String
  defaultAngle : Option α
  deriving DecidableEq, Inhabited

/-- What a measurement measures. -/
inductive MeasureKind where
  | distance
  | angle
  | area
  | volume
  deriving DecidableEq, Inhabited

def MeasureKind.name : MeasureKind → String
  | distance => "distance"
  | angle => "angle"
  | area => "area"
  | volume => "volume"

def MeasureKind.all : List MeasureKind := [.distance, .angle, .area, .volume]

/-- A measurement of some points. -/
structure Measurement where
  id : String
  kind : MeasureKind
  points : List String
  deriving DecidableEq, Inhabited

/-- A parameter with its range and its initial value. -/
structure Parameter (α : Type) where
  id : String
  min : α
  max : α
  initial : α
  deriving DecidableEq, Inhabited

/-- A base solid with what is declared on it. -/
structure Model (α : Type) where
  solid : Solid α
  points : List (NamedPoint α)
  folds : List (Fold α)
  measurements : List Measurement
  parameters : List (Parameter α)
  deriving DecidableEq, Inhabited

/-- The name of the point that is the origin in every model. -/
def centerId : String := "center"

namespace Model

variable {α : Type}

/-- The first declared point of a name. -/
def point? (m : Model α) (id : String) : Option (NamedPoint α) :=
  m.points.find? fun p => p.id == id

/-- The first fold of a name. -/
def fold? (m : Model α) (id : String) : Option (Fold α) :=
  m.folds.find? fun f => f.id == id

/-- The first parameter of a name. -/
def parameter? (m : Model α) (id : String) : Option (Parameter α) :=
  m.parameters.find? fun p => p.id == id

/-- The parameter that moves a point along its segment, if the point is on one. -/
def drivingParameter? (m : Model α) (point : String) : Option String :=
  (m.point? point).bind fun p => if p.kind = .onSegment then p.param else none

/-- The points that are the image of another one under a fold. -/
def foldedPoints (m : Model α) : List String := m.folds.flatMap fun f => f.folded

/-- The angle of a fold that nothing else determines, a half turn. -/
def halfTurn [Scalar α] : α := 180.0

/--
The angle of a fold before anything moves: the initial value of its parameter,
else its own default, else a half turn.
-/
def initialAngle [Scalar α] (m : Model α) (f : Fold α) : α :=
  match f.angleParam.bind m.parameter? with
  | some p => p.initial
  | none => f.defaultAngle.getD halfTurn

end Model

/-- Values of parameters and angles of folds, which take precedence over the model's own. -/
structure Setting (α : Type) where
  parameters : OrderedMap String α
  angles : OrderedMap String α
  deriving Inhabited

/-- The setting that determines nothing. -/
def Setting.none {α : Type} : Setting α := ⟨OrderedMap.empty, OrderedMap.empty⟩

end Storyboard
