import Storyboard.Script.Camera
import Storyboard.Space.Wire

/-!
# Cameras as JSON

A string is the name of a preset, whether there is one or not; what reads as a
shot is a full camera; everything else is kept as it came.
-/

namespace Storyboard

/-- Reads a transition; an unknown word is another transition. -/
def Transition.ofJson? (j : Json) : Option Transition := j.word?.map Transition.ofName

def Shot.ofJson? (j : Json) : Option (Shot Float) := do
  let r ← j.record? ["spherical", "lookAt", "transition"]
  let position ← r.required "spherical" Spherical.ofJson?
  let lookAt ← r.required "lookAt" Json.text?
  let transition ← r.required "transition" Transition.ofJson?
  return ⟨position, lookAt, transition⟩

def Shot.toJson (s : Shot Float) : Json :=
  .obj [("spherical", s.position.toJson), ("lookAt", .str s.lookAt),
    ("transition", .str s.transition.name)]

namespace Camera

/-- Reads a camera. -/
def ofJson (j : Json) : Camera Float :=
  match j with
  | .str name => .preset name
  | _ =>
    match Shot.ofJson? j with
    | some shot => .full shot
    | none => .unread j

def toJson : Camera Float → Json
  | .preset name => .str name
  | .full shot => shot.toJson
  | .unread raw => raw

end Camera

end Storyboard
