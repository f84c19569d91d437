/-!
# Reports

What a review of a script finds: *defects*, which keep it from being produced, and
*cautions*, which do not.  Each finding names a place in the script by its path.
-/

namespace Storyboard

/-- The kinds of defect. -/
inductive Defect where
  | missingReference
  | invalidFold
  | invalidRange
  | invalidElevation
  | missingId
  | duplicateId
  | invalidPreset
  | unknownAction
  | invalidCamera
  deriving DecidableEq, Inhabited

namespace Defect

def all : List Defect :=
  [missingReference, invalidFold, invalidRange, invalidElevation, missingId, duplicateId,
    invalidPreset, unknownAction, invalidCamera]

def name : Defect → String
  | missingReference => "missing_reference"
  | invalidFold => "invalid_fold_id"
  | invalidRange => "invalid_range"
  | invalidElevation => "invalid_phi"
  | missingId => "missing_id"
  | duplicateId => "duplicate_id"
  | invalidPreset => "invalid_preset"
  | unknownAction => "unknown_action"
  | invalidCamera => "invalid_camera"

def ofName? (name : String) : Option Defect := all.find? fun d => d.name == name

/-- Whether a defect can be mended without asking anybody. -/
def isMendable : Defect → Bool
  | missingId | duplicateId | invalidElevation | invalidPreset => true
  | _ => false

end Defect

/-- The kinds of caution. -/
inductive Caution where
  | elevationAtEdge
  | longScene
  | missingNarration
  deriving DecidableEq, Inhabited

namespace Caution

def all : List Caution := [elevationAtEdge, longScene, missingNarration]

def name : Caution → String
  | elevationAtEdge => "phi_edge_value"
  | longScene => "long_scene"
  | missingNarration => "missing_narration"

def ofName? (name : String) : Option Caution := all.find? fun c => c.name == name

end Caution

/-- A defect or a caution at a place of the script. -/
structure Finding (κ : Type) where
  kind : κ
  path : String
  message : String
  deriving DecidableEq, Inhabited

/-- A defect in one line. -/
def Finding.line (f : Finding Defect) : String :=
  f.kind.name ++ " at " ++ f.path ++ ": " ++ f.message

/-- The findings of a review, and whether the script may be produced. -/
structure Report where
  valid : Bool
  defects : List (Finding Defect)
  cautions : List (Finding Caution)
  deriving DecidableEq, Inhabited

namespace Report

/-- The report of some findings: a script without defects is valid. -/
def ofFindings (defects : List (Finding Defect)) (cautions : List (Finding Caution)) :
    Report :=
  ⟨defects.isEmpty, defects, cautions⟩

/-- Whether there is a defect of a kind. -/
def hasDefect (r : Report) (kind : Defect) : Bool := r.defects.any fun d => d.kind = kind

/-- Whether there is a caution of a kind. -/
def hasCaution (r : Report) (kind : Caution) : Bool := r.cautions.any fun c => c.kind = kind

/-- The first defect at a path. -/
def defectAt? (r : Report) (path : String) : Option (Finding Defect) :=
  r.defects.find? fun d => d.path == path

end Report

end Storyboard
