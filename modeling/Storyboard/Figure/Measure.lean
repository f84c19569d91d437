import Storyboard.Figure.Location

/-!
# Measurements

The value of a measurement from the coordinates of its points: a distance, the
angle at a vertex or between a line and a plane in degrees, the area of a
triangle or of a quadrilateral cut along its diagonal, the volume of a
tetrahedron.  An angle without a direction is zero.
-/

namespace Storyboard

namespace Vec

variable {α : Type} [Analytic α]

/-- The angle at `o` between `p` and `q` in degrees. -/
def angleAt (p o q : Vec α) : α :=
  let v := p - o
  let w := q - o
  let lengths := v.length * w.length
  if Scalar.isZero lengths then 0
  else Analytic.degrees (Analytic.angleOfCosine (v.dot w / lengths))

/-- The angle in degrees between the line through `p` and `q` and the plane of `a`, `b`, `c`. -/
def angleToPlane (p q a b c : Vec α) : α :=
  let line := q - p
  let normal := (b - a).cross (c - a)
  let lengths := line.length * normal.length
  if Scalar.isZero lengths then 0
  else
    Analytic.degrees
      (Analytic.angleOfSine (Scalar.magnitude (line.dot normal) / lengths))

/-- The area of a triangle. -/
def areaOfTriangle (a b c : Vec α) : α := ((b - a).cross (c - a)).length / 2.0

/-- The volume of a tetrahedron. -/
def volumeOfTetrahedron (a b c d : Vec α) : α :=
  Scalar.magnitude ((b - a).dot ((c - a).cross (d - a))) / 6.0

end Vec

namespace Measurement

variable {α : Type}

/-- The fault of a measurement that has the wrong number of points. -/
def wrongCount (m : Measurement) (needs : String) (points : List (Vec α)) : Fault :=
  .malformed m.id (needs ++ ", got " ++ toString points.length ++ " points")

/-- The value of a measurement from the coordinates of its points. -/
def value [Analytic α] (m : Measurement) (points : List (Vec α)) : Except Fault α :=
  match m.kind with
  | .distance =>
    match points with
    | [a, b] => .ok (a.distance b)
    | _ => .error (m.wrongCount "distance needs 2 points" points)
  | .angle =>
    match points with
    | [p, o, q] => .ok (p.angleAt o q)
    | [p, q, a, b, c] => .ok (p.angleToPlane q a b c)
    | _ => .error (m.wrongCount "angle needs 3 or 5 points" points)
  | .area =>
    match points with
    | [a, b, c] => .ok (a.areaOfTriangle b c)
    | [a, b, c, d] => .ok (a.areaOfTriangle b c + a.areaOfTriangle c d)
    | _ => .error (m.wrongCount "area needs 3 or 4 points" points)
  | .volume =>
    match points with
    | [a, b, c, d] => .ok (a.volumeOfTetrahedron b c d)
    | _ => .error (m.wrongCount "volume needs 4 points" points)

end Measurement

/-- The value of a declared measurement under a setting. -/
def Figure.measure {α : Type} [Analytic α] (fig : Figure α) (setting : Setting α)
    (id : String) : Except Fault α :=
  match fig.measurement? id with
  | none => .error (.unknownMeasurement id)
  | some m => do
    let points ← fig.locateAll setting m.points
    m.value points

end Storyboard
