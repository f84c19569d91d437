import Storyboard.Review.References
import Storyboard.Review.Report
import Storyboard.Script.Action
import Storyboard.Text.Blank

/-!
# Review of actions

The steps of a list of actions are reviewed in document order.  A step that
creates an element claims a name, which must be there and be new, and a target
must be a point of the model, a target of the stage itself, or a name claimed by
an earlier step.  A creating step that could not be read still claims its name.
-/

namespace Storyboard

/-- The targets that belong to the stage itself. -/
def ownTargets : List String := ["geometry", "vertexLabels"]

/-- Some defect if a condition holds. -/
def Finding.when (condition : Bool) (kind : Defect) (path message : String) :
    List (Finding Defect) :=
  if condition then [⟨kind, path, message⟩] else []

namespace Unread

/-- Whether a field of the value as it came is a list of strings. -/
def isTexts (u : Unread) (name : String) : Bool :=
  ((u.raw.field? name).bind Json.texts?).isSome

/-- The first field that a creating verb requires and that is missing or of the wrong kind. -/
def brokenField? (u : Unread) (verb : Verb) : Option String :=
  match verb with
  | .drawLine | .showPath => ["from", "to"].find? fun name => (u.text? name).isNone
  | .showPlane => if u.isTexts "points" then none else some "points"
  | .showTetrahedron => if u.isTexts "vertices" then none else some "vertices"
  | _ => none

/-- The defect of an action that could not be read. -/
def defect (u : Unread) (place : Place) : Finding Defect :=
  match u.reason with
  | .noVerb => ⟨.unknownAction, place.path, "action has no `do` kind"⟩
  | .unknownVerb word =>
    ⟨.unknownAction, place.field "do", "unknown action kind '" ++ word ++ "'"⟩
  | .malformed verb detail =>
    let message := "malformed " ++ verb.word ++ ": " ++ detail
    if verb.hasTarget then ⟨.missingReference, place.field "target", message⟩
    else if verb.createsElement then
      match u.brokenField? verb with
      | some name => ⟨.missingReference, place.field name, message⟩
      | none => ⟨.missingReference, place.path, message⟩
    else
      match verb with
      | .animatePoint =>
        if (u.text? "target").isNone then
          ⟨.missingReference, place.field "target", message⟩
        else ⟨.invalidRange, place.field "from", message⟩
      | .fold => ⟨.invalidFold, place.field "foldId", message⟩
      | .together => ⟨.unknownAction, place.field "actions", message⟩
      | _ => ⟨.unknownAction, place.path, message⟩

end Unread

namespace Step

variable {α : Type}

/-- The name that a step claims for a new element, which may be missing, and its verb. -/
def claim? : Step α → Option (Option String × Verb)
  | create id _ shape => some (id, shape.verb)
  | unread u =>
    match u.verb? with
    | some verb => if verb.createsElement then some (u.text? "id", verb) else none
    | none => none
  | _ => none

/-- The defect of the name that a step claims, given the names claimed before. -/
def claimDefects (created : List String) (place : Place) (s : Step α) :
    List (Finding Defect) :=
  match s.claim? with
  | none => []
  | some (id, verb) =>
    match id.filter fun id => !Text.isBlank id with
    | none =>
      [⟨.missingId, place.field "id", verb.word ++ " must name the element it creates"⟩]
    | some id =>
      Finding.when (created.contains id) .duplicateId (place.field "id")
        ("element id '" ++ id ++ "' is already in use")

/-- The names claimed once a step has claimed its own. -/
def claimed (created : List String) (s : Step α) : List String :=
  match s.claim? with
  | some (some id, _) =>
    if Text.isBlank id || created.contains id then created else created ++ [id]
  | _ => created

/-- Whether a name is a target, given the names claimed before. -/
def isTarget (refs : References) (created : List String) (id : String) : Bool :=
  ownTargets.contains id || refs.isPoint id || created.contains id

/-- The defect of a target that is not there. -/
def targetDefects (refs : References) (created : List String) (place : Place)
    (target : String) : List (Finding Defect) :=
  Finding.when (!isTarget refs created target) .missingReference (place.field "target")
    ("target '" ++ target ++ "' is neither a point nor a created element")

/-- The defect of a point that is not there, at the path of the field that names it. -/
def pointDefects (refs : References) (path id : String) : List (Finding Defect) :=
  Finding.when (!refs.isPoint id) .missingReference path ("unknown point '" ++ id ++ "'")

/-- The defects of a list of points. -/
def pointsDefects (refs : References) (path : String) (ids : List String) :
    List (Finding Defect) :=
  ids.zipIdx.flatMap fun (id, j) => pointDefects refs (path ++ Place.bracketed j) id

variable [Scalar α] [NumberText α]

/-- The defect of a duration below zero. -/
def durationDefects (place : Place) (duration : Option α) : List (Finding Defect) :=
  match duration with
  | some d =>
    Finding.when (decide (d < 0)) .invalidRange (place.field "duration")
      ("duration must not be negative, got " ++ NumberText.plain d)
  | none => []

/-- The defect of a pulse that is to be repeated too often. -/
def timesDefects (place : Place) (times : Option α) : List (Finding Defect) :=
  match times with
  | some n =>
    Finding.when (decide (((maxPulses : Nat) : α) < n)) .invalidRange
      (place.field "times")
      ("pulse times " ++ NumberText.plain n ++ " exceeds " ++ toString maxPulses)
  | none => []

/-- The defects of the points of a shape. -/
def shapeDefects (refs : References) (place : Place) :
    Shape α → List (Finding Defect)
  | .line a b _ | .path a b =>
    pointDefects refs (place.field "from") a ++ pointDefects refs (place.field "to") b
  | .plane points _ =>
    if points.length < 3 then
      [⟨.missingReference, place.field "points",
        "showPlane needs at least 3 points, got " ++ toString points.length⟩]
    else pointsDefects refs (place.field "points") points
  | .tetrahedron vertices _ =>
    if vertices.length ≠ 4 then
      [⟨.missingReference, place.field "vertices",
        "showTetrahedron needs exactly 4 vertices, got " ++ toString vertices.length⟩]
    else pointsDefects refs (place.field "vertices") vertices

/-- Whether a number lies between zero and one. -/
def isFraction (x : α) : Bool := 0 ≤ x ∧ x ≤ 1

/-- The defects of a step other than those of the name it claims. -/
def otherDefects (refs : References) (created : List String) (place : Place) :
    Step α → List (Finding Defect)
  | reveal target | hide target | highlight target _ =>
    targetDefects refs created place target
  | fadeIn target duration | fadeOut target duration =>
    targetDefects refs created place target ++ durationDefects place duration
  | pulse target _ times =>
    targetDefects refs created place target ++ timesDefects place times
  | create _ _ shape => shapeDefects refs place shape
  | animatePoint target start finish duration =>
    Finding.when (!refs.isPoint target) .missingReference (place.field "target")
        ("animatePoint targets unknown point '" ++ target ++ "'") ++
      Finding.when (!isFraction start || !isFraction finish) .invalidRange
        (place.field "from")
        ("animatePoint range must lie in [0, 1], got " ++ NumberText.plain start ++
          " -> " ++ NumberText.plain finish) ++
      durationDefects place duration
  | fold id _ _ duration =>
    Finding.when (!refs.folds.contains id) .invalidFold (place.field "foldId")
        ("unknown fold '" ++ id ++ "'") ++
      durationDefects place duration
  | wait duration => durationDefects place (some duration)
  | unread u => [u.defect place]

/-- The defects of a step, those of the name it claims first. -/
def defects (refs : References) (created : List String) (place : Place) (s : Step α) :
    List (Finding Defect) :=
  s.claimDefects created place ++ s.otherDefects refs created place

end Step

/-- The defects found so far, and the names claimed so far. -/
structure Progress where
  defects : List (Finding Defect)
  created : List String
  deriving DecidableEq, Inhabited

namespace Progress

/-- The scope before any action. -/
def empty : Progress := ⟨[], []⟩

variable {α : Type} [Scalar α] [NumberText α]

/-- Adds a finding. -/
def add (scope : Progress) (found : List (Finding Defect)) : Progress :=
  ⟨scope.defects ++ found, scope.created⟩

/-- Reviews one step. -/
def review (refs : References) (scope : Progress) (located : Place × Step α) : Progress :=
  ⟨scope.defects ++ located.2.defects refs scope.created located.1,
    located.2.claimed scope.created⟩

/-- Reviews some steps one after the other. -/
def reviewSteps (refs : References) (scope : Progress) (steps : List (Place × Step α)) :
    Progress :=
  steps.foldl (review refs) scope

/-- Reviews the steps of a list of actions at a path. -/
def reviewActions (refs : References) (scope : Progress) (list : String)
    (actions : List (Action α)) : Progress :=
  scope.reviewSteps refs (Action.locatedFrom ⟨list, []⟩ 0 actions)

end Progress

end Storyboard
