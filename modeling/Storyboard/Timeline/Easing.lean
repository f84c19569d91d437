import Storyboard.Number.Scalar
import Storyboard.Script.Camera

/-!
# Easing

Curves from the unit interval to itself, which shape how a value moves from one
keyframe to the next.
-/

namespace Storyboard

/-- The curves. -/
inductive Easing where
  | linear
  | ease
  | easeIn
  | easeOut
  | easeInOut
  deriving DecidableEq, Inhabited

namespace Easing

def all : List Easing := [linear, ease, easeIn, easeOut, easeInOut]

def name : Easing → String
  | linear => "linear"
  | ease => "ease"
  | easeIn => "ease-in"
  | easeOut => "ease-out"
  | easeInOut => "ease-in-out"

def ofName? (name : String) : Option Easing := all.find? fun e => e.name == name

/-- The curve by which the camera comes into a shot. -/
def ofTransition : Transition → Easing
  | .instant => linear
  | .ease | .easeInOut => easeInOut
  | .other => ease

variable {α : Type} [Scalar α]

/-- Two parabolas that meet in the middle. -/
def inOut (x : α) : α :=
  if x < 0.5 then 2.0 * x * x
  else
    let rest := -2.0 * x + 2.0
    1 - rest * rest / 2.0

/-- The point of a curve above `t`, which is brought into the unit interval first. -/
def apply (easing : Easing) (t : α) : α :=
  let x := Scalar.confine 0 1 t
  match easing with
  | linear => x
  | ease | easeInOut => inOut x
  | easeIn => x * x
  | easeOut => 1 - (1 - x) * (1 - x)

end Easing

end Storyboard
