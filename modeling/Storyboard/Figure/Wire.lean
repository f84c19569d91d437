import Storyboard.Figure.Survey
import Storyboard.Json.Map
import Storyboard.Space.Wire

/-!
# Surveys as JSON

Writing a survey with its points and measurements by name.
-/

namespace Storyboard

def LocatedPoint.toJson (p : LocatedPoint Float) : Json :=
  .obj [("position", p.position.toJson), ("dynamic", .bool p.moves)]

def Survey.toJson (s : Survey Float) : Json :=
  .obj [
    ("vertices", s.vertices.toJson Vec.toJson),
    ("points", s.points.toJson LocatedPoint.toJson),
    ("measurements", s.measurements.toJson .ofFloat),
    ("edges", .arr (s.edges.map fun e => .ofTexts [e.1, e.2])),
    ("faces", .arr (s.faces.map .ofTexts))]

end Storyboard
