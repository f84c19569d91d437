import Storyboard.Json.Basic
import Storyboard.Script.Verb

/-!
# Actions

The actions of a scene form trees: a single step is a leaf, and a group holds the
actions that start together.  A step that could not be read is kept with the
value it was read from, so that it can be reported and handed back.

How long a step takes follows from the step alone.  A group takes as long as the
longest of its members.
-/

namespace Storyboard

/-- How a line is drawn. -/
inductive LineStyle where
  | dashed
  | solid
  deriving DecidableEq, Inhabited

/-- What a creating step draws. -/
inductive Shape (α : Type) where
  | line (start finish : String) (style : Option LineStyle)
  | path (start finish : String)
  | plane (points : List String) (opacity : Option α)
  | tetrahedron (vertices : List String) (opacity : Option α)
  deriving DecidableEq, Inhabited

/-- The verb that asks for a shape. -/
def Shape.verb {α : Type} : Shape α → Verb
  | line .. => .drawLine
  | path .. => .showPath
  | plane .. => .showPlane
  | tetrahedron .. => .showTetrahedron

/-- The points that a plane or a tetrahedron is spanned by. -/
def Shape.anchors {α : Type} : Shape α → List String
  | line .. | path .. => []
  | plane points _ => points
  | tetrahedron vertices _ => vertices

/-- Why an action could not be read. -/
inductive Misreading where
  /-- It is no object, or has no word for a verb. -/
  | noVerb
  | unknownVerb (word : String)
  /-- Its fields do not fit its verb. -/
  | malformed (verb : Verb) (detail : String)
  deriving DecidableEq, Inhabited

/-- An action that could not be read, as it came. -/
structure Unread where
  raw : Json
  reason : Misreading
  deriving Inhabited

namespace Unread

/-- A field of the value as it came, if it is a string. -/
def text? (u : Unread) (name : String) : Option String := (u.raw.field? name).bind Json.text?

/-- The verb whose fields did not fit. -/
def verb? (u : Unread) : Option Verb :=
  match u.reason with
  | .malformed verb _ => some verb
  | _ => none

end Unread

/-- A single action. -/
inductive Step (α : Type) where
  | reveal (target : String)
  | hide (target : String)
  | fadeIn (target : String) (duration : Option α)
  | fadeOut (target : String) (duration : Option α)
  | highlight (target : String) (color : Option String)
  | pulse (target : String) (color : Option String) (times : Option α)
  | create (id : Option String) (color : Option String) (shape : Shape α)
  | animatePoint (target : String) (start finish : α) (duration : Option α)
  | fold (id : String) (start finish : Option α) (duration : Option α)
  | wait (duration : α)
  | unread (u : Unread)
  deriving Inhabited

/-- A step, or a group of actions that start together. -/
inductive Action (α : Type) where
  | step (s : Step α)
  | together (actions : List (Action α))
  deriving Inhabited

namespace Step

variable {α : Type}

/-- The verb of a step that could be read. -/
def verb? : Step α → Option Verb
  | reveal _ => some .reveal
  | hide _ => some .hide
  | fadeIn .. => some .fadeIn
  | fadeOut .. => some .fadeOut
  | highlight .. => some .highlight
  | pulse .. => some .pulse
  | create _ _ shape => some shape.verb
  | animatePoint .. => some .animatePoint
  | fold .. => some .fold
  | wait _ => some .wait
  | unread _ => none

/-- The seconds a step takes; a duration that is given but not positive is none. -/
def duration [Scalar α] : Step α → α
  | reveal _ | hide _ => 0.5
  | fadeIn _ duration | fadeOut _ duration => Scalar.nonNegative (duration.getD 0.8)
  | highlight .. => 1.0
  | pulse .. => 1.5
  | create _ _ shape =>
    match shape with
    | .path .. => 0.8
    | .line .. | .plane .. | .tetrahedron .. => 1.0
  | animatePoint _ _ _ duration => Scalar.nonNegative (duration.getD 3.0)
  | fold _ _ _ duration => Scalar.nonNegative (duration.getD 2.0)
  | wait duration => Scalar.nonNegative duration
  | unread _ => 0

/-- The largest number of times that a pulse goes on and off. -/
def maxPulses : Nat := 100

/--
How often a pulse goes on and off: the whole part of what is asked for, at least
once and at most `maxPulses` times.
-/
def pulseCount [Scalar α] (times : Option α) : Nat :=
  match times with
  | some t =>
    if Scalar.isFinite t then
      max 1 ((List.range maxPulses).countP fun n => decide (((n + 1 : Nat) : α) ≤ t))
    else 1
  | none => 1

/-- The angle at which a fold begins unless it says so. -/
def startAngle [Scalar α] (start : Option α) : α := start.getD 0

/-- The angle at which a fold ends unless it says so, a half turn. -/
def finishAngle [Scalar α] (finish : Option α) : α := finish.getD 180.0

/-- The name given by a step that creates an element, which may be missing. -/
def createdId? : Step α → Option (Option String)
  | create id _ _ => some id
  | _ => none

/-- A creating step with another name for its element. -/
def rename (id : String) : Step α → Step α
  | create _ color shape => create (some id) color shape
  | s => s

end Step

/-- The place of an action: the path of a list of actions, and the indices that lead into it. -/
structure Place where
  list : String
  indices : List Nat
  deriving DecidableEq, Inhabited

namespace Place

/-- The place of a member of the group or list at a place. -/
def child (p : Place) (i : Nat) : Place := ⟨p.list, p.indices ++ [i]⟩

/-- An index in brackets. -/
def bracketed (i : Nat) : String := "[" ++ toString i ++ "]"

/-- The path of a place; each index but the first leads into a group. -/
def path (p : Place) : String :=
  match p.indices with
  | [] => p.list
  | i :: rest =>
    rest.foldl (fun path j => path ++ ".actions" ++ bracketed j) (p.list ++ bracketed i)

/-- The path of a field of the action at a place. -/
def field (p : Place) (name : String) : String := p.path ++ "." ++ name

end Place

/-- The path of a scene. -/
def scenePath (i : Nat) : String := "scenes" ++ Place.bracketed i

/-- The place of the list of actions of a scene. -/
def Place.ofScene (i : Nat) : Place := ⟨scenePath i ++ ".actions", []⟩

namespace Action

variable {α σ : Type}

mutual

/-- The steps of an action in document order, each with its place. -/
def located (place : Place) : Action α → List (Place × Step α)
  | .step s => [(place, s)]
  | .together actions => locatedFrom place 0 actions

/-- The steps of the members of a group from the `i`-th on. -/
def locatedFrom (place : Place) (i : Nat) : List (Action α) → List (Place × Step α)
  | [] => []
  | a :: rest => located (place.child i) a ++ locatedFrom place (i + 1) rest

end

mutual

/-- Changes the steps of an action in document order, handing on a state. -/
def traverse (f : σ → Place → Step α → σ × Step α) (place : Place) (state : σ) :
    Action α → σ × Action α
  | .step s =>
    let (state, s) := f state place s
    (state, .step s)
  | .together actions =>
    let (state, actions) := traverseFrom f place 0 state actions
    (state, .together actions)

/-- Changes the steps of the members of a group from the `i`-th on. -/
def traverseFrom (f : σ → Place → Step α → σ × Step α) (place : Place) (i : Nat)
    (state : σ) : List (Action α) → σ × List (Action α)
  | [] => (state, [])
  | a :: rest =>
    let (state, a) := traverse f (place.child i) state a
    let (state, rest) := traverseFrom f place (i + 1) state rest
    (state, a :: rest)

end

mutual

/-- The seconds an action takes; a group lasts as long as its longest member. -/
def duration [Scalar α] : Action α → α
  | .step s => s.duration
  | .together actions => longest 0 actions

/-- The longest of some actions, and not less than `least`. -/
def longest [Scalar α] (least : α) : List (Action α) → α
  | [] => least
  | a :: rest => longest (Scalar.larger least a.duration) rest

end

end Action

end Storyboard
