import Storyboard.Review.FreeName
import Storyboard.Review.Script

/-!
# Repair

Some defects of a script can be mended from the script alone: an unknown preset
becomes the isometric one, an elevation is brought back into its bounds, a name
that is taken gets a number behind it, and a missing name is made up from the
points that the element is drawn through.  References are never changed.

Every change is logged as a fix at a path.  A defect of the review counts as
mended when there is a fix of its kind at its path.
-/

namespace Storyboard

/-- What stood at the place of a fix, or stands there now. -/
inductive Datum (α : Type) where
  | absent
  | text (s : String)
  | number (x : α)
  deriving DecidableEq, Inhabited

/-- A change at a path, made because of a kind of defect. -/
structure Fix (α : Type) where
  kind : Defect
  path : String
  before : Datum α
  after : Datum α
  deriving DecidableEq, Inhabited

/-- What a repair leaves: the mended script if any was tried, and the defects that remain. -/
structure Outcome (α : Type) where
  /-- Whether no defect remains. -/
  fixed : Bool
  script : Option (Script α)
  remaining : List (Finding Defect)
  fixes : List (Fix α)
  deriving Inhabited

variable {α : Type}

namespace Camera

/-- A camera brought into bounds, with the fixes that took. -/
def repaired [Scalar α] (path : String) (c : Camera α) : Camera α × List (Fix α) :=
  match c with
  | .preset name =>
    if (Preset.ofName? name).isNone then
      let replacement := Preset.standard.name
      (.preset replacement, [⟨.invalidPreset, path, .text name, .text replacement⟩])
    else (c, [])
  | .full shot =>
    let phi := shot.position.phi
    if phi < 0 ∨ zenith < phi then
      let clamped := Scalar.clamp 0 zenith phi
      (.full { shot with position := { shot.position with phi := clamped } },
        [⟨.invalidElevation, path ++ ".spherical.phi", .number phi, .number clamped⟩])
    else (c, [])
  | .unread _ => (c, [])

end Camera

namespace Shape

/-- A name for a shape that has none, made up from its points. -/
def madeUpName : Shape α → String
  | .line a b _ => "line_" ++ Text.trim a ++ "_" ++ Text.trim b
  | .path a b => "path_" ++ Text.trim a ++ "_" ++ Text.trim b
  | .plane points _ => "plane_" ++ "_".intercalate points
  | .tetrahedron vertices _ => "tetrahedron_" ++ "_".intercalate vertices

end Shape

/-- The names taken so far, and the fixes made so far. -/
structure Mending (α : Type) where
  taken : List String
  fixes : List (Fix α)

namespace Mending

/-- Takes a name. -/
def take (m : Mending α) (id : String) : Mending α := ⟨m.taken ++ [id], m.fixes⟩

/-- Takes a name that was given as a fix. -/
def give (m : Mending α) (kind : Defect) (path : String) (before : Datum α)
    (id : String) : Mending α :=
  ⟨m.taken ++ [id], m.fixes ++ [⟨kind, path, before, .text id⟩]⟩

/-- Mends the name that a step claims. -/
def step (m : Mending α) (place : Place) (s : Step α) : Mending α × Step α :=
  match s with
  | .create (some id) _ shape =>
    if Text.isBlank id then
      let name := freeName m.taken shape.madeUpName
      (m.give .missingId (place.field "id") (.text id) name, s.rename name)
    else if m.taken.contains id then
      let name := freeName m.taken id
      (m.give .duplicateId (place.field "id") (.text id) name, s.rename name)
    else (m.take id, s)
  | .create none _ shape =>
    let name := freeName m.taken shape.madeUpName
    (m.give .missingId (place.field "id") .absent name, s.rename name)
  | .unread _ =>
    match s.claim? with
    | some (some id, _) => (m.take id, s)
    | _ => (m, s)
  | _ => (m, s)

end Mending

namespace Script

/-- Brings the cameras of scenes from the `i`-th on into bounds. -/
def repairCameras [Scalar α] (i : Nat) : List (Scene α) → List (Scene α) × List (Fix α)
  | [] => ([], [])
  | s :: rest =>
    let (camera, fixes) := s.camera.repaired (scenePath i ++ ".camera")
    let (rest, more) := repairCameras (i + 1) rest
    ({ s with camera } :: rest, fixes ++ more)

/-- Gives scenes from the `i`-th on names that are not taken. -/
def repairSceneIds (taken : List String) (i : Nat) :
    List (Scene α) → List (Scene α) × List (Fix α)
  | [] => ([], [])
  | s :: rest =>
    if taken.contains s.id then
      let id := freeName taken s.id
      let (rest, fixes) := repairSceneIds (taken ++ [id]) (i + 1) rest
      ({ s with id } :: rest,
        ⟨.duplicateId, scenePath i ++ ".id", .text s.id, .text id⟩ :: fixes)
    else
      let (rest, fixes) := repairSceneIds (taken ++ [s.id]) (i + 1) rest
      (s :: rest, fixes)

/-- Mends the names that the actions of scenes from the `i`-th on claim. -/
def repairActions (m : Mending α) (i : Nat) :
    List (Scene α) → List (Scene α) × Mending α
  | [] => ([], m)
  | s :: rest =>
    let (m, actions) := Action.traverseFrom Mending.step (Place.ofScene i) 0 m s.actions
    let (rest, m) := repairActions m (i + 1) rest
    ({ s with actions } :: rest, m)

/-- A script with everything mended that can be, and the fixes that took. -/
def mended [Scalar α] (s : Script α) : Script α × List (Fix α) :=
  let (scenes, cameraFixes) := repairCameras 0 s.scenes
  let (scenes, sceneFixes) := repairSceneIds [] 0 scenes
  let (scenes, mending) := repairActions ⟨[], []⟩ 0 scenes
  ({ s with scenes }, cameraFixes ++ sceneFixes ++ mending.fixes)

/-- Whether a fix of the kind of a defect was made at its path. -/
def isFixed (fixes : List (Fix α)) (d : Finding Defect) : Bool :=
  fixes.any fun f => f.kind = d.kind ∧ f.path = d.path

/--
Repairs a script that has the given defects.  Nothing is changed when none of
them can be mended.
-/
def repair [Scalar α] (s : Script α) (defects : List (Finding Defect)) : Outcome α :=
  if defects.any fun d => d.kind.isMendable then
    let (script, fixes) := s.mended
    let remaining := defects.filter fun d => !isFixed fixes d
    ⟨remaining.isEmpty, some script, remaining, fixes⟩
  else ⟨false, none, defects, []⟩

end Script

end Storyboard
