import Storyboard.Script.ActionWire
import Storyboard.Script.Basic
import Storyboard.Script.CameraWire

/-!
# Scripts as JSON

Reading a script from JSON and writing it back.  A scene needs a name only; a
scene without a camera has the standard one.
-/

namespace Storyboard

/-- Reads a list of actions, of which only the list can fail. -/
def Action.list? (j : Json) : Option (List (Action Float)) := j.items?.map Action.ofItems

def Scene.ofJson? (j : Json) : Option (Scene Float) := do
  let r ← j.record? ["id", "narration", "camera", "actions", "showMeasurements"]
  let id ← r.required "id" Json.text?
  let narration ← r.defaulted "narration" "" Json.text?
  let camera ← r.defaulted "camera" Camera.standard fun j => some (Camera.ofJson j)
  let actions ← r.defaulted "actions" [] Action.list?
  let measurements ← r.optional "showMeasurements" Json.texts?
  return ⟨id, narration, camera, actions, measurements⟩

def Scene.toJson (s : Scene Float) : Json :=
  .ofFields [
    ("id", some (.str s.id)),
    ("narration", some (.str s.narration)),
    ("camera", some s.camera.toJson),
    ("actions", some (.arr (Action.toItems s.actions))),
    ("showMeasurements", s.measurements.map .ofTexts)]

def Script.ofJson? (j : Json) : Option (Script Float) := do
  let r ← j.record? ["title", "scenes"]
  let title ← r.defaulted "title" "" Json.text?
  let scenes ← r.required "scenes" (Json.list? Scene.ofJson?)
  return ⟨title, scenes⟩

def Script.toJson (s : Script Float) : Json :=
  .obj [("title", .str s.title), ("scenes", .arr (s.scenes.map Scene.toJson))]

end Storyboard
