import Storyboard.Json.Record
import Storyboard.Model.Basic

/-!
# Models as JSON

Reading a model from JSON and writing it back.  What is absent stays absent; the
lists of a model may be left out and are written as empty.
-/

namespace Storyboard

/-- Reads the name of a shape; an unknown name is another shape. -/
def SolidKind.ofJson? (j : Json) : Option SolidKind := j.word?.map SolidKind.ofName

/-- Three numbers in an array. -/
def Solid.triple? : Json → Option (Float × Float × Float)
  | .arr [a, b, c] => do
    let a ← a.number?
    let b ← b.number?
    let c ← c.number?
    return (a, b, c)
  | _ => none

def Solid.ofJson? (j : Json) : Option (Solid Float) := do
  let r ← j.record? ["type", "size", "dimensions"]
  let kind ← r.required "type" SolidKind.ofJson?
  let size ← r.optional "size" Json.number?
  let dimensions ← r.optional "dimensions" Solid.triple?
  return ⟨kind, size, dimensions⟩

def Solid.toJson (s : Solid Float) : Json :=
  .ofFields [
    ("type", some (.str s.kind.name)),
    ("size", s.size.map .ofFloat),
    ("dimensions", s.dimensions.map fun (a, b, c) =>
      .arr [.ofFloat a, .ofFloat b, .ofFloat c])]

def PointKind.ofJson? (j : Json) : Option PointKind :=
  j.word?.bind fun word => PointKind.all.find? fun kind => kind.name == word

def NamedPoint.ofJson? (j : Json) : Option (NamedPoint Float) := do
  let r ← j.record? ["id", "type", "of", "from", "to", "ratio", "param", "points"]
  let id ← r.required "id" Json.text?
  let kind ← r.required "type" PointKind.ofJson?
  let of ← r.optional "of" Json.texts?
  let start ← r.optional "from" Json.text?
  let finish ← r.optional "to" Json.text?
  let ratio ← r.optional "ratio" Json.number?
  let param ← r.optional "param" Json.text?
  let points ← r.optional "points" Json.texts?
  return ⟨id, kind, of, start, finish, ratio, param, points⟩

def NamedPoint.toJson (p : NamedPoint Float) : Json :=
  .ofFields [
    ("id", some (.str p.id)),
    ("type", some (.str p.kind.name)),
    ("of", p.of.map .ofTexts),
    ("from", p.start.map .str),
    ("to", p.finish.map .str),
    ("ratio", p.ratio.map .ofFloat),
    ("param", p.param.map .str),
    ("points", p.points.map .ofTexts)]

/-- Two strings in an array. -/
def Fold.pair? : Json → Option (String × String)
  | .arr [a, b] => do
    let a ← a.text?
    let b ← b.text?
    return (a, b)
  | _ => none

def Fold.ofJson? (j : Json) : Option (Fold Float) := do
  let r ← j.record?
    ["id", "hinge", "movingPoints", "foldedPoints", "angleParam", "defaultAngle"]
  let id ← r.required "id" Json.text?
  let hinge ← r.required "hinge" Fold.pair?
  let moving ← r.required "movingPoints" Json.texts?
  let folded ← r.required "foldedPoints" Json.texts?
  let angleParam ← r.optional "angleParam" Json.text?
  let defaultAngle ← r.optional "defaultAngle" Json.number?
  return ⟨id, hinge, moving, folded, angleParam, defaultAngle⟩

def Fold.toJson (f : Fold Float) : Json :=
  .ofFields [
    ("id", some (.str f.id)),
    ("hinge", some (.ofTexts [f.hinge.1, f.hinge.2])),
    ("movingPoints", some (.ofTexts f.moving)),
    ("foldedPoints", some (.ofTexts f.folded)),
    ("angleParam", f.angleParam.map .str),
    ("defaultAngle", f.defaultAngle.map .ofFloat)]

def MeasureKind.ofJson? (j : Json) : Option MeasureKind :=
  j.word?.bind fun word => MeasureKind.all.find? fun kind => kind.name == word

def Measurement.ofJson? (j : Json) : Option Measurement := do
  let r ← j.record? ["id", "type", "points"]
  let id ← r.required "id" Json.text?
  let kind ← r.required "type" MeasureKind.ofJson?
  let points ← r.required "points" Json.texts?
  return ⟨id, kind, points⟩

def Measurement.toJson (m : Measurement) : Json :=
  .obj [("id", .str m.id), ("type", .str m.kind.name), ("points", .ofTexts m.points)]

def Parameter.ofJson? (j : Json) : Option (Parameter Float) := do
  let r ← j.record? ["id", "min", "max", "default"]
  let id ← r.required "id" Json.text?
  let min ← r.required "min" Json.number?
  let max ← r.required "max" Json.number?
  let initial ← r.required "default" Json.number?
  return ⟨id, min, max, initial⟩

def Parameter.toJson (p : Parameter Float) : Json :=
  .obj [("id", .str p.id), ("min", .ofFloat p.min), ("max", .ofFloat p.max),
    ("default", .ofFloat p.initial)]

def Model.ofJson? (j : Json) : Option (Model Float) := do
  let r ← j.record? ["baseGeometry", "points", "folds", "measurements", "params"]
  let solid ← r.required "baseGeometry" Solid.ofJson?
  let points ← r.defaulted "points" [] (Json.list? NamedPoint.ofJson?)
  let folds ← r.defaulted "folds" [] (Json.list? Fold.ofJson?)
  let measurements ← r.defaulted "measurements" [] (Json.list? Measurement.ofJson?)
  let parameters ← r.defaulted "params" [] (Json.list? Parameter.ofJson?)
  return ⟨solid, points, folds, measurements, parameters⟩

def Model.toJson (m : Model Float) : Json :=
  .obj [
    ("baseGeometry", m.solid.toJson),
    ("points", .arr (m.points.map NamedPoint.toJson)),
    ("folds", .arr (m.folds.map Fold.toJson)),
    ("measurements", .arr (m.measurements.map Measurement.toJson)),
    ("params", .arr (m.parameters.map Parameter.toJson))]

end Storyboard
