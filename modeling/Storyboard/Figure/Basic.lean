import Storyboard.Model.Basic
import Storyboard.Solid.Placement

/-!
# Figures

A figure is a model whose base solid has been placed, ready to have its points
located.  Where a name is declared twice the figure goes by the later
declaration; of two folds that claim one point it goes by the earlier.
-/

namespace Storyboard

/-- Why a name has no coordinates or no value. -/
inductive Fault where
  | unknownVertex (id : String)
  | unknownPoint (id : String)
  | unknownMeasurement (id : String)
  | unknownParameter (id : String)
  /-- A declaration that lacks something or has it in the wrong number. -/
  | malformed (id reason : String)
  /-- A solid that has no placement. -/
  | unsupportedSolid (kind : SolidKind)
  /-- A point that depends on itself, with the points that lead there. -/
  | cyclic (chain : List String)
  deriving DecidableEq

def Fault.message : Fault → String
  | unknownVertex id => "unknown vertex: " ++ id
  | unknownPoint id => "unknown point: " ++ id
  | unknownMeasurement id => "unknown measurement: " ++ id
  | unknownParameter id => "no value for parameter: " ++ id
  | malformed id reason => "malformed definition '" ++ id ++ "': " ++ reason
  | unsupportedSolid kind => "unsupported solid type: " ++ kind.name
  | cyclic chain => "cyclic point definition: " ++ " -> ".intercalate chain

/-- A model with the placed vertices of its solid. -/
structure Figure (α : Type) where
  model : Model α
  vertices : OrderedMap String (Vec α)

/-- The figure of a model, if its solid can be placed. -/
def Model.figure {α : Type} [Analytic α] (m : Model α) : Except Fault (Figure α) :=
  match m.solid.vertices? with
  | some vertices => .ok ⟨m, vertices⟩
  | none => .error (.unsupportedSolid m.solid.kind)

namespace Figure

variable {α : Type}

/-- The declaration that counts for a name, which is the last one. -/
def definition? (fig : Figure α) (id : String) : Option (NamedPoint α) :=
  fig.model.points.reverse.find? fun p => p.id == id

/-- The measurement that counts for a name, which is the last one. -/
def measurement? (fig : Figure α) (id : String) : Option Measurement :=
  fig.model.measurements.reverse.find? fun m => m.id == id

/-- The first fold that turns another point into this one, and at which place. -/
def foldOnto? (fig : Figure α) (id : String) : Option (Fold α × Nat) :=
  fig.model.folds.findSome? fun f => (f.folded.findIdx? (· == id)).map fun k => (f, k)

/-- Whether a point is the image of another one under a fold. -/
def isFolded (fig : Figure α) (id : String) : Bool :=
  fig.model.folds.any fun f => f.folded.contains id

/-- The coordinates of a vertex of the base solid. -/
def vertex (fig : Figure α) (id : String) : Except Fault (Vec α) :=
  match fig.vertices.get? id with
  | some v => .ok v
  | none => .error (.unknownVertex id)

/-- The value of a parameter: the setting's, else the initial one of its last declaration. -/
def parameter? (fig : Figure α) (setting : Setting α) (id : String) : Option α :=
  match setting.parameters.get? id with
  | some value => some value
  | none => (fig.model.parameters.reverse.find? fun p => p.id == id).map fun p => p.initial

/--
The angle of a fold in degrees: the setting's, else the value of the fold's
parameter, else the fold's default, else a half turn.
-/
def angle [Scalar α] (fig : Figure α) (setting : Setting α) (f : Fold α) : α :=
  match setting.angles.get? f.id with
  | some angle => angle
  | none =>
    match f.angleParam.bind (fig.parameter? setting) with
    | some value => value
    | none => f.defaultAngle.getD Model.halfTurn

end Figure

end Storyboard
