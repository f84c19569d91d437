import Storyboard.Review.Actions
import Storyboard.Script.Basic

/-!
# Review of scripts

A script is reviewed scene by scene against the names of a model.  Within a scene
come its name, its narration, its camera, its measurements, and its actions.  The
names claimed by the actions of a scene are known to the scenes after it, and to
their cameras.
-/

namespace Storyboard

/-- From where on a scene is long, and how close an elevation may come to the edge. -/
structure Standards (α : Type) where
  longScene : α
  edgeMargin : α
  deriving DecidableEq, Inhabited

/-- A scene is long from fifteen seconds on; five degrees are close. -/
def Standards.usual {α : Type} [Scalar α] : Standards α := ⟨15.0, 5.0⟩

/-- The largest elevation, straight above. -/
def zenith {α : Type} [Scalar α] : α := 90.0

namespace Camera

variable {α : Type} [Scalar α] [NumberText α]

/-- The defects of an elevation. -/
def elevationDefects (path : String) (phi : α) : List (Finding Defect) :=
  if Scalar.isFinite phi = false then
    [⟨.invalidCamera, path, "phi must be a finite number"⟩]
  else
    Finding.when (!decide (0 ≤ phi ∧ phi ≤ zenith)) .invalidElevation path
      ("phi " ++ NumberText.plain phi ++ " is outside [0, 90]")

/-- The caution about an elevation that is within its bounds, but close to one. -/
def elevationCautions (margin : α) (path : String) (phi : α) : List (Finding Caution) :=
  if (Scalar.isFinite phi = true ∧ 0 ≤ phi ∧ phi ≤ zenith) ∧
      (phi ≤ margin ∨ zenith - margin ≤ phi) then
    [⟨.elevationAtEdge, path,
      "phi " ++ NumberText.plain phi ++ " is close to the edge of [0, 90]"⟩]
  else []

/-- The defects of a camera at a path, given the names claimed in earlier scenes. -/
def defects (refs : References) (created : List String) (path : String) :
    Camera α → List (Finding Defect)
  | .preset name =>
    Finding.when (Preset.ofName? name).isNone .invalidPreset path
      ("unknown camera preset '" ++ name ++ "'")
  | .unread _ =>
    [⟨.invalidCamera, path,
      "camera must be a preset name or \x7bspherical, lookAt, transition\x7d"⟩]
  | .full shot =>
    elevationDefects (path ++ ".spherical.phi") shot.position.phi ++
      Finding.when (!refs.isPoint shot.lookAt && !created.contains shot.lookAt)
        .missingReference (path ++ ".lookAt")
        ("lookAt '" ++ shot.lookAt ++ "' is neither a point nor a created element")

/-- The cautions about a camera at a path. -/
def cautions (margin : α) (path : String) : Camera α → List (Finding Caution)
  | .full shot => elevationCautions margin (path ++ ".spherical.phi") shot.position.phi
  | _ => []

end Camera

namespace Scene

variable {α : Type} [Scalar α] [NumberText α]

/-- The seconds that the actions of a scene take one after the other. -/
def actionTime (s : Scene α) : α := Scalar.sum (s.actions.map Action.duration)

/-- The defects of the measurements that a scene shows. -/
def measurementDefects (refs : References) (path : String) (s : Scene α) :
    List (Finding Defect) :=
  (s.measurements.getD []).zipIdx.flatMap fun (id, j) =>
    Finding.when (!refs.measurements.contains id) .missingReference
      (path ++ ".showMeasurements" ++ Place.bracketed j)
      ("unknown measurement '" ++ id ++ "'")

/-- The defects of a scene before its actions, given the names of the scenes before it. -/
def openingDefects (refs : References) (earlier created : List String) (i : Nat)
    (s : Scene α) : List (Finding Defect) :=
  Finding.when (earlier.contains s.id) .duplicateId (scenePath i ++ ".id")
      ("scene id '" ++ s.id ++ "' is already in use") ++
    s.camera.defects refs created (scenePath i ++ ".camera") ++
    s.measurementDefects refs (scenePath i)

/-- The cautions about a scene. -/
def cautions (standards : Standards α) (i : Nat) (s : Scene α) : List (Finding Caution) :=
  (if Text.isBlank s.narration then
    [⟨.missingNarration, scenePath i ++ ".narration", "scene has no narration"⟩]
   else []) ++
    s.camera.cautions standards.edgeMargin (scenePath i ++ ".camera") ++
    (if standards.longScene < s.actionTime then
      [⟨.longScene, scenePath i,
        "scene runs about " ++ NumberText.tenths s.actionTime ++ "s"⟩]
     else [])

/-- Reviews a scene, given the names of the scenes before it. -/
def review (refs : References) (earlier : List String) (scope : Progress) (i : Nat)
    (s : Scene α) : Progress :=
  (scope.add (s.openingDefects refs earlier scope.created i)).reviewSteps refs (s.located i)

end Scene

namespace Script

variable {α : Type} [Scalar α] [NumberText α]

/-- Reviews the scenes from the `i`-th on, given the names of those before. -/
def reviewFrom (refs : References) (earlier : List String) (scope : Progress) (i : Nat) :
    List (Scene α) → Progress
  | [] => scope
  | s :: rest =>
    reviewFrom refs (earlier ++ [s.id]) (s.review refs earlier scope i) (i + 1) rest

/-- The report on a script against the names of a model. -/
def review (standards : Standards α) (m : Model α) (s : Script α) : Report :=
  let refs := References.ofModel m
  Report.ofFindings (reviewFrom refs [] Progress.empty 0 s.scenes).defects
    (s.scenes.zipIdx.flatMap fun (scene, i) => scene.cautions standards i)

end Script

end Storyboard
