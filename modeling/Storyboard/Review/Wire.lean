import Storyboard.Json.Record
import Storyboard.Review.Repair
import Storyboard.Script.Wire

/-!
# Reports and repairs as JSON

Reading and writing reports, standards and the outcome of a repair.
-/

namespace Storyboard

def Defect.ofJson? (j : Json) : Option Defect := j.word?.bind Defect.ofName?

def Caution.ofJson? (j : Json) : Option Caution := j.word?.bind Caution.ofName?

namespace Finding

/-- Reads a finding, its kind as given. -/
def ofJson? {κ : Type} (kind : Json → Option κ) (j : Json) : Option (Finding κ) := do
  let r ← j.record? ["type", "path", "message"]
  let kind ← r.required "type" kind
  let path ← r.required "path" Json.text?
  let message ← r.required "message" Json.text?
  return ⟨kind, path, message⟩

/-- Writes a finding, its kind by the given name. -/
def toJson {κ : Type} (name : κ → String) (f : Finding κ) : Json :=
  .obj [("type", .str (name f.kind)), ("path", .str f.path), ("message", .str f.message)]

/-- Writes defects. -/
def defectsToJson (defects : List (Finding Defect)) : Json :=
  .arr (defects.map (toJson Defect.name))

end Finding

def Report.ofJson? (j : Json) : Option Report := do
  let r ← j.record? ["valid", "errors", "warnings"]
  let valid ← r.required "valid" Json.bool?
  let defects ← r.required "errors" (Json.list? (Finding.ofJson? Defect.ofJson?))
  let cautions ← r.required "warnings" (Json.list? (Finding.ofJson? Caution.ofJson?))
  return ⟨valid, defects, cautions⟩

def Report.toJson (r : Report) : Json :=
  .obj [("valid", .bool r.valid), ("errors", Finding.defectsToJson r.defects),
    ("warnings", .arr (r.cautions.map (Finding.toJson Caution.name)))]

/-- Reads standards; what is left out is as usual. -/
def Standards.ofJson? (j : Json) : Option (Standards Float) := do
  let usual : Standards Float := Standards.usual
  let r ← j.record? ["longSceneThreshold", "phiEdgeMargin"]
  let longScene ← r.defaulted "longSceneThreshold" usual.longScene Json.number?
  let edgeMargin ← r.defaulted "phiEdgeMargin" usual.edgeMargin Json.number?
  return ⟨longScene, edgeMargin⟩

def Standards.toJson (s : Standards Float) : Json :=
  .obj [("longSceneThreshold", .ofFloat s.longScene), ("phiEdgeMargin", .ofFloat s.edgeMargin)]

def Datum.toJson : Datum Float → Json
  | absent => .null
  | text s => .str s
  | number x => .ofFloat x

def Fix.toJson (f : Fix Float) : Json :=
  .obj [("errorType", .str f.kind.name), ("path", .str f.path),
    ("original", f.before.toJson), ("fixed", f.after.toJson)]

def Outcome.toJson (o : Outcome Float) : Json :=
  .ofFields [
    ("fixed", some (.bool o.fixed)),
    ("script", o.script.map Script.toJson),
    ("remainingErrors", some (Finding.defectsToJson o.remaining)),
    ("fixes", some (.arr (o.fixes.map Fix.toJson)))]

end Storyboard
