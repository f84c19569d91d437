/-!
# Verbs

The fourteen things that an action of a script can ask for, by the words that
scripts use.  Six of them act on a target that is already there, four create an
element.
-/

namespace Storyboard

/-- What an action asks for. -/
inductive Verb where
  | reveal
  | hide
  | fadeIn
  | fadeOut
  | highlight
  | pulse
  | drawLine
  | showPath
  | showPlane
  | showTetrahedron
  | animatePoint
  | fold
  | together
  | wait
  deriving DecidableEq, Inhabited

namespace Verb

def all : List Verb :=
  [reveal, hide, fadeIn, fadeOut, highlight, pulse, drawLine, showPath, showPlane,
    showTetrahedron, animatePoint, fold, together, wait]

/-- The word for a verb. -/
def word : Verb → String
  | reveal => "show"
  | hide => "hide"
  | fadeIn => "fadeIn"
  | fadeOut => "fadeOut"
  | highlight => "highlight"
  | pulse => "pulse"
  | drawLine => "drawLine"
  | showPath => "showPath"
  | showPlane => "showPlane"
  | showTetrahedron => "showTetrahedron"
  | animatePoint => "animatePoint"
  | fold => "fold"
  | together => "together"
  | wait => "wait"

/-- The verb of a word. -/
def ofWord? (word : String) : Option Verb := all.find? fun v => v.word == word

/-- Whether a verb acts on a single target that is already there. -/
def hasTarget : Verb → Bool
  | reveal | hide | fadeIn | fadeOut | highlight | pulse => true
  | _ => false

/-- Whether a verb creates an element, which then needs a name. -/
def createsElement : Verb → Bool
  | drawLine | showPath | showPlane | showTetrahedron => true
  | _ => false

end Verb

end Storyboard
