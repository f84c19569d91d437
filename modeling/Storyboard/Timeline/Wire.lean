import Storyboard.Json.Map
import Storyboard.Script.ActionWire
import Storyboard.Space.Wire
import Storyboard.Timeline.Frame
import Storyboard.Timeline.Production

/-!
# Timelines, elements and frames as JSON

Reading and writing timelines, registries and the timing of scenes, and writing
frames.  The value of a keyframe is told by its kind alone.  An element names its
form in the field `type`, which comes first when it is read from an array.
-/

namespace Storyboard

def Easing.ofJson? (j : Json) : Option Easing := j.word?.bind Easing.ofName?

namespace KeyValue

def ofJson? (j : Json) : Option (KeyValue Float) :=
  match j with
  | .null => some .null
  | .bool b => some (.bool b)
  | .str s => some (.color s)
  | _ => j.number?.map .number

def toJson : KeyValue Float → Json
  | bool b => .bool b
  | number x => .ofFloat x
  | color c => .str c
  | null => .null

end KeyValue

namespace Keyframe

def ofJson? (j : Json) : Option (Keyframe Float) := do
  let r ← j.record? ["time", "value", "easing"]
  let time ← r.required "time" Json.number?
  let value ← r.required "value" KeyValue.ofJson?
  let easing ← r.optional "easing" Easing.ofJson?
  return ⟨time, value, easing⟩

def toJson (k : Keyframe Float) : Json :=
  .ofFields [
    ("time", some (.ofFloat k.time)),
    ("value", some k.value.toJson),
    ("easing", k.easing.map fun e => .str e.name)]

end Keyframe

def Property.ofJson? (j : Json) : Option Property := j.word?.bind Property.ofName?

namespace Track

def ofJson? (j : Json) : Option (Track Float) := do
  let r ← j.record? ["targetId", "property", "keyframes"]
  let target ← r.required "targetId" Json.text?
  let property ← r.required "property" Property.ofJson?
  let keyframes ← r.required "keyframes" (Json.list? Keyframe.ofJson?)
  return ⟨⟨property, target⟩, keyframes.toArray⟩

def toJson (t : Track Float) : Json :=
  .obj [
    ("targetId", .str t.channel.target),
    ("property", .str t.channel.property.name),
    ("keyframes", .arr (t.keyframes.toList.map Keyframe.toJson))]

end Track

namespace CameraKey

def ofJson? (j : Json) : Option (CameraKey Float) := do
  let r ← j.record? ["time", "spherical", "lookAt", "easing"]
  let time ← r.required "time" Json.number?
  let position ← r.required "spherical" Spherical.ofJson?
  let lookAt ← r.required "lookAt" Vec.ofJson?
  let easing ← r.required "easing" Easing.ofJson?
  return ⟨time, position, lookAt, easing⟩

def toJson (k : CameraKey Float) : Json :=
  .obj [
    ("time", .ofFloat k.time),
    ("spherical", k.position.toJson),
    ("lookAt", k.lookAt.toJson),
    ("easing", .str k.easing.name)]

end CameraKey

namespace Segment

def ofJson? (j : Json) : Option (Segment Float) := do
  let r ← j.record? ["id", "startTime", "endTime", "narration", "activeMeasurements",
    "cameraTrack", "actionTracks"]
  let id ← r.required "id" Json.text?
  let start ← r.required "startTime" Json.number?
  let finish ← r.required "endTime" Json.number?
  let narration ← r.required "narration" Json.text?
  let measurements ← r.required "activeMeasurements" Json.texts?
  let cameraTrack ← r.required "cameraTrack" (Json.list? CameraKey.ofJson?)
  let tracks ← r.required "actionTracks" (Json.list? Track.ofJson?)
  return ⟨id, start, finish, narration, measurements, cameraTrack.toArray, tracks⟩

def toJson (s : Segment Float) : Json :=
  .obj [
    ("id", .str s.id),
    ("startTime", .ofFloat s.start),
    ("endTime", .ofFloat s.finish),
    ("narration", .str s.narration),
    ("activeMeasurements", .ofTexts s.measurements),
    ("cameraTrack", .arr (s.cameraTrack.toList.map CameraKey.toJson)),
    ("actionTracks", .arr (s.tracks.map Track.toJson))]

end Segment

namespace Timeline

def ofJson? (j : Json) : Option (Timeline Float) := do
  let r ← j.record? ["duration", "scenes"]
  let duration ← r.required "duration" Json.number?
  let segments ← r.required "scenes" (Json.list? Segment.ofJson?)
  return ⟨duration, segments⟩

def toJson (t : Timeline Float) : Json :=
  .obj [("duration", .ofFloat t.duration), ("scenes", .arr (t.segments.map Segment.toJson))]

end Timeline

namespace Element

/-- The name of the form of an element, which it has in its field `type`. -/
def formName (e : Element Float) : String :=
  match e.form with
  | .line .. => "line"
  | .path .. => "path"
  | .plane .. => "plane"
  | .tetrahedron .. => "tetrahedron"

/-- The fields of an element of a form behind the field `type`, in their order. -/
def fieldNames : String → List String
  | "line" => ["id", "from", "to", "style", "color"]
  | "path" => ["id", "from", "to", "color"]
  | "plane" => ["id", "points", "color", "opacity"]
  | "tetrahedron" => ["id", "vertices", "color", "opacity"]
  | _ => []

/-- The name of the form of an element that is read, and its other fields. -/
def tagged? (j : Json) : Option (String × Json) :=
  match j with
  | .obj _ => ((j.field? "type").bind Json.text?).map fun name => (name, j)
  | .arr (.str name :: items) => some (name, .arr items)
  | _ => none

/-- Reads the form of an element by the name of the form. -/
def form? (name : String) (r : Json.Record) : Option (Form Float) :=
  match name with
  | "line" => do
    let a ← r.required "from" Json.text?
    let b ← r.required "to" Json.text?
    let style ← r.required "style" LineStyle.ofJson?
    return .line a b style
  | "path" => do
    let a ← r.required "from" Json.text?
    let b ← r.required "to" Json.text?
    return .path a b
  | "plane" => do
    let points ← r.required "points" Json.texts?
    let opacity ← r.required "opacity" Json.number?
    return .plane points opacity
  | "tetrahedron" => do
    let vertices ← r.required "vertices" Json.texts?
    let opacity ← r.required "opacity" Json.number?
    return .tetrahedron vertices opacity
  | _ => none

def ofJson? (j : Json) : Option (Element Float) := do
  let (name, fields) ← tagged? j
  let r ← fields.record? (fieldNames name)
  let form ← form? name r
  let id ← r.required "id" Json.text?
  let color ← r.required "color" Json.text?
  return ⟨id, color, form⟩

/-- Writes the fields of the form of an element. -/
def formFields (e : Element Float) : List (String × Json) :=
  match e.form with
  | .line a b style => [("from", .str a), ("to", .str b), ("style", .str style.name)]
  | .path a b => [("from", .str a), ("to", .str b)]
  | .plane points opacity => [("points", .ofTexts points), ("opacity", .ofFloat opacity)]
  | .tetrahedron vertices opacity =>
    [("vertices", .ofTexts vertices), ("opacity", .ofFloat opacity)]

def toJson (e : Element Float) : Json :=
  .obj ([("type", .str e.formName), ("id", .str e.id), ("color", .str e.color)] ++
    e.formFields)

end Element

namespace Registry

def ofJson? (j : Json) : Option (Registry Float) := do
  let r ← j.record? ["elements"]
  r.required "elements" fun elements =>
    match elements with
    | .obj fields => do
      let entries ← fields.mapM fun f => (Element.ofJson? f.2).map fun e => (f.1, e)
      return OrderedMap.ofList entries
    | _ => none

def toJson (r : Registry Float) : Json :=
  .obj [("elements", OrderedMap.toJson r Element.toJson)]

end Registry

namespace Timing

/-- Reads the timing of scenes; what is left out is as usual. -/
def ofJson? (j : Json) : Option (Timing Float) := do
  let usual : Timing Float := Timing.usual
  let r ← j.record? ["charsPerSecond", "scenePadding", "highlightRelease"]
  let charsPerSecond ← r.defaulted "charsPerSecond" usual.charsPerSecond Json.number?
  let scenePadding ← r.defaulted "scenePadding" usual.scenePadding Json.number?
  let highlightRelease ← r.defaulted "highlightRelease" usual.highlightRelease Json.number?
  return ⟨charsPerSecond, scenePadding, highlightRelease⟩

def toJson (t : Timing Float) : Json :=
  .obj [
    ("charsPerSecond", .ofFloat t.charsPerSecond),
    ("scenePadding", .ofFloat t.scenePadding),
    ("highlightRelease", .ofFloat t.highlightRelease)]

end Timing

def View.toJson (v : View Float) : Json :=
  .ofFields [
    ("position", some v.position.toJson),
    ("lookAt", some v.lookAt.toJson),
    ("spherical", v.spherical.map Spherical.toJson)]

def Frame.toJson (f : Frame Float) : Json :=
  .obj [
    ("currentSceneId", .str f.segment),
    ("globalTime", .ofFloat f.globalTime),
    ("sceneLocalTime", .ofFloat f.localTime),
    ("visibleElements", .ofTexts f.visible.keys),
    ("opacities", f.opacities.toJson .ofFloat),
    ("highlights", f.highlights.toJson .str),
    ("paramValues", f.parameters.toJson .ofFloat),
    ("foldAngles", f.angles.toJson .ofFloat),
    ("camera", f.view.toJson),
    ("subtitle", .str f.subtitle),
    ("activeMeasurements", .ofTexts f.measurements)]

end Storyboard
