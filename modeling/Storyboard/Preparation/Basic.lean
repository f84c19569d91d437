import Storyboard.Review.Repair
import Storyboard.Timeline.Production

/-!
# Preparation

From a script to a timeline: the script is reviewed, repaired if it has defects
and repairs are wanted, reviewed again, and produced once it is without defects.
-/

namespace Storyboard

/-- The terms on which scripts are prepared. -/
structure Terms (α : Type) where
  standards : Standards α
  timing : Timing α
  /-- Whether defects are to be repaired where they can be. -/
  autoRepair : Bool
  deriving DecidableEq, Inhabited

/-- Standards and timing as usual, with repairs. -/
def Terms.usual {α : Type} [Scalar α] : Terms α := ⟨.usual, .usual, true⟩

/-- A script that has been prepared, as it was produced. -/
structure Prepared (α : Type) where
  script : Script α
  report : Report
  fixes : List (Fix α)
  production : Production α

/-- Why a script has not been prepared. -/
inductive Refusal where
  | rejected (defects : List (Finding Defect))
  | unproducible (title : String) (fault : ProductionFault)
  deriving DecidableEq

def Refusal.message : Refusal → String
  | rejected defects =>
    "script rejected with " ++ toString defects.length ++ " validation error(s)"
  | unproducible title fault => "compiling '" ++ title ++ "': " ++ fault.message

namespace Script

variable {α : Type}

/-- The script that is to be produced, the report on it, and the fixes that led to it. -/
def settle [Scalar α] [NumberText α] (terms : Terms α) (m : Model α) (s : Script α) :
    Script α × Report × List (Fix α) :=
  let report := s.review terms.standards m
  if report.valid = false ∧ terms.autoRepair = true then
    let outcome := s.repair report.defects
    match outcome.script with
    | some mended => (mended, mended.review terms.standards m, outcome.fixes)
    | none => (s, report, [])
  else (s, report, [])

/-- Prepares a script for a model. -/
def prepare [Analytic α] [NumberText α] (terms : Terms α) (m : Model α) (s : Script α) :
    Except Refusal (Prepared α) :=
  let (script, report, fixes) := s.settle terms m
  if report.valid then
    match script.produce terms.timing m with
    | .ok production => .ok ⟨script, report, fixes, production⟩
    | .error fault => .error (.unproducible script.title fault)
  else .error (.rejected report.defects)

end Script

end Storyboard
