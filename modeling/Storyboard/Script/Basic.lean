import Storyboard.Script.Action
import Storyboard.Script.Camera

/-!
# Scripts

A script is a title and a list of narrated scenes, each with a camera, actions,
and the measurements to be shown.
-/

namespace Storyboard

/-- A narrated scene. -/
structure Scene (α : Type) where
  id : String
  narration : String
  camera : Camera α
  actions : List (Action α)
  measurements : Option (List String)
  deriving Inhabited

/-- The steps of a scene in document order, each with its place in the script. -/
def Scene.located {α : Type} (i : Nat) (s : Scene α) : List (Place × Step α) :=
  Action.locatedFrom (Place.ofScene i) 0 s.actions

/-- A title and the scenes in the order of playing. -/
structure Script (α : Type) where
  title : String
  scenes : List (Scene α)
  deriving Inhabited

/-- The steps of a script in document order, each with its place. -/
def Script.located {α : Type} (s : Script α) : List (Place × Step α) :=
  s.scenes.zipIdx.flatMap fun (scene, i) => scene.located i

/-- The first scene of a name. -/
def Script.scene? {α : Type} (s : Script α) (id : String) : Option (Scene α) :=
  s.scenes.find? fun scene => scene.id == id

end Storyboard
