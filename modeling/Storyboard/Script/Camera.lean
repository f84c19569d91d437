import Storyboard.Json.Basic
import Storyboard.Space.Spherical
import Storyboard.Model.Basic

/-!
# Cameras

The camera of a scene as the script gives it: the name of a preset, a shot in
full, or something that could not be read.  Whatever is given resolves to a shot;
what names no preset resolves to the isometric one.
-/

namespace Storyboard

/-- The named positions of the camera. -/
inductive Preset where
  | front
  | top
  | side
  | isometric
  | isometricBack
  deriving DecidableEq, Inhabited

namespace Preset

def all : List Preset := [front, top, side, isometric, isometricBack]

def name : Preset → String
  | front => "front"
  | top => "top"
  | side => "side"
  | isometric => "isometric"
  | isometricBack => "isometric-back"

def ofName? (name : String) : Option Preset := all.find? fun p => p.name == name

/-- The preset that takes the place of an unknown one. -/
def standard : Preset := isometric

/-- Where the camera stands for a preset. -/
def position {α : Type} [Scalar α] : Preset → Spherical α
  | front => ⟨2.5, 0, 15.0⟩
  | top => ⟨2.5, 0, 85.0⟩
  | side => ⟨2.5, 90.0, 15.0⟩
  | isometric => ⟨2.5, 45.0, 35.0⟩
  | isometricBack => ⟨2.5, 225.0, 35.0⟩

end Preset

/-- How the camera comes into a shot. -/
inductive Transition where
  | instant
  | ease
  | easeInOut
  | other
  deriving DecidableEq, Inhabited

namespace Transition

def name : Transition → String
  | instant => "instant"
  | ease => "ease"
  | easeInOut => "ease-in-out"
  | other => "other"

/-- The transition of a name; a name that is not one of the known ones means another. -/
def ofName (name : String) : Transition :=
  ([instant, ease, easeInOut].find? fun t => t.name == name).getD other

end Transition

/-- Where the camera stands, what it looks at, and how it gets there. -/
structure Shot (α : Type) where
  position : Spherical α
  lookAt : String
  transition : Transition
  deriving DecidableEq, Inhabited

/-- The camera of a scene as given. -/
inductive Camera (α : Type) where
  | preset (name : String)
  | full (shot : Shot α)
  | unread (raw : Json)
  deriving Inhabited

namespace Camera

variable {α : Type}

/-- The camera of a scene that gives none. -/
def standard : Camera α := .preset Preset.standard.name

/-- The shot of a preset, which looks at the origin. -/
def presetShot [Scalar α] (preset : Preset) : Shot α := ⟨preset.position, centerId, .ease⟩

/-- The shot a camera stands for. -/
def shot [Scalar α] : Camera α → Shot α
  | .full shot => shot
  | .preset name => presetShot ((Preset.ofName? name).getD Preset.standard)
  | .unread _ => presetShot Preset.standard

end Camera

end Storyboard
