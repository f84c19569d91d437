import Storyboard.Timeline.Stage
import Storyboard.Text.Blank
import Storyboard.Timeline.Element

/-!
# Cues

A cue is one step of a scene with its time and with all names looked up: the
element that is created, the parameter that is driven.  What a cue does is said
twice over, by the stage it leaves and by the keyframes it writes.

The actions of a scene follow one another, the members of a group start
together, so that the start of every step is known from the durations before it.
-/

namespace Storyboard

/-- Why a script cannot be produced. -/
inductive ProductionFault where
  /-- A creating step without a name. -/
  | missingElementId (scene : String) (verb : Verb)
  /-- A step that animates a point which no parameter drives. -/
  | missingDrivingParameter (scene point : String)
  | geometry (fault : Fault)
  deriving DecidableEq

def ProductionFault.message : ProductionFault → String
  | missingElementId scene verb =>
    verb.word ++ " in scene '" ++ scene ++ "' has no element id"
  | missingDrivingParameter scene point =>
    "animatePoint in scene '" ++ scene ++ "' targets '" ++ point ++
      "', which has no driving parameter"
  | geometry fault => fault.message

/-- What a step does to the stage. -/
inductive Effect (α : Type) where
  | reveal (target : String)
  | hide (target : String)
  | fadeIn (target : String)
  | fadeOut (target : String)
  | highlight (target color : String)
  | pulse (target color : String) (repetitions : Nat)
  | create (element : Element α)
  | drive (parameter : String) (start finish : α)
  | fold (id : String) (start finish : α)
  | rest
  deriving DecidableEq, Inhabited

/-- An effect at a time of the scene. -/
structure Cue (α : Type) where
  start : α
  duration : α
  effect : Effect α
  deriving DecidableEq, Inhabited

/-- A step and the time at which it starts. -/
abbrev TimedStep (α : Type) := α × Step α

namespace Action

variable {α : Type}

mutual

/-- The steps of an action that starts at a time. -/
def timed (start : α) : Action α → List (TimedStep α)
  | .step s => [(start, s)]
  | .together actions => timedTogether start actions

/-- The steps of some actions that start together. -/
def timedTogether (start : α) : List (Action α) → List (TimedStep α)
  | [] => []
  | a :: rest => timed start a ++ timedTogether start rest

end

/-- The steps of some actions that follow one another from a time on. -/
def timedInTurn [Scalar α] (start : α) : List (Action α) → List (TimedStep α)
  | [] => []
  | a :: rest => a.timed start ++ timedInTurn (start + a.duration) rest

/-- When the last of some actions that follow one another has ended. -/
def endInTurn [Scalar α] (start : α) (actions : List (Action α)) : α :=
  actions.foldl (fun time a => time + a.duration) start

end Action

namespace Step

variable {α : Type} [Scalar α]

/-- The element of a creating step; its name is trimmed and must not be blank. -/
def element (scene : String) (id color : Option String) (shape : Shape α) :
    Except ProductionFault (Element α) :=
  let name := (id.map Text.trim).getD ""
  if name.isEmpty then .error (.missingElementId scene shape.verb)
  else .ok ⟨name, color.getD shape.standardColor, shape.form⟩

/-- What a step of a scene does, with its names looked up. -/
def effect (m : Model α) (scene : String) : Step α → Except ProductionFault (Effect α)
  | reveal target => .ok (.reveal target)
  | hide target => .ok (.hide target)
  | fadeIn target _ => .ok (.fadeIn target)
  | fadeOut target _ => .ok (.fadeOut target)
  | highlight target color => .ok (.highlight target (color.getD highlightColor))
  | pulse target color times =>
    .ok (.pulse target (color.getD highlightColor) (pulseCount times))
  | create id color shape => (element scene id color shape).map .create
  | animatePoint target start finish _ =>
    match m.drivingParameter? target with
    | some parameter => .ok (.drive parameter start finish)
    | none => .error (.missingDrivingParameter scene target)
  | fold id start finish _ => .ok (.fold id (startAngle start) (finishAngle finish))
  | wait _ => .ok .rest
  | unread _ => .ok .rest

/-- The cue of a step that starts at a time. -/
def cue (m : Model α) (scene : String) (timed : TimedStep α) :
    Except ProductionFault (Cue α) :=
  (timed.2.effect m scene).map fun effect => ⟨timed.1, timed.2.duration, effect⟩

end Step

namespace Cue

variable {α : Type} [Scalar α]

/-- When a cue has ended. -/
def finish (cue : Cue α) : α := cue.start + cue.duration

/-- The keyframes of a pulse: on and off in equal parts, and off at the end. -/
def pulseKeys (start duration : α) (color : String) (repetitions : Nat) :
    List (Keyframe α) :=
  let part := duration / ((2 * repetitions : Nat) : α)
  (List.range (2 * repetitions)).map (fun (i : Nat) =>
    let time := start + (i : α) * part
    if i % 2 = 0 then .color time color else .clear time) ++
    [.clear (start + duration)]

/-- The keyframes that a cue writes, given the stage it finds. -/
def writes (stage : Stage α) (cue : Cue α) : List (Write α) :=
  match cue.effect with
  | .reveal target => [(⟨.visibility, target⟩, .flag cue.finish true)]
  | .hide target => [(⟨.visibility, target⟩, .flag cue.finish false)]
  | .fadeIn target =>
    [(⟨.visibility, target⟩, .flag cue.start true),
      (⟨.opacity, target⟩, .number cue.start 0),
      (⟨.opacity, target⟩, .eased cue.finish 1 .easeInOut)]
  | .fadeOut target =>
    [(⟨.opacity, target⟩, .number cue.start ((stage.opacities.get? target).getD 1)),
      (⟨.opacity, target⟩, .eased cue.finish 0 .easeInOut),
      (⟨.visibility, target⟩, .flag cue.finish false)]
  | .highlight target color => [(⟨.highlight, target⟩, .color cue.start color)]
  | .pulse target color repetitions =>
    (pulseKeys cue.start cue.duration color repetitions).map fun k =>
      (⟨.highlight, target⟩, k)
  | .create element =>
    (⟨.visibility, element.id⟩, .flag cue.finish true) ::
      element.form.opacity?.toList.map fun opacity =>
        (⟨.opacity, element.id⟩, .number cue.finish opacity)
  | .drive parameter start finish =>
    [(⟨.parameter, parameter⟩, .number cue.start start),
      (⟨.parameter, parameter⟩, .eased cue.finish finish .linear)]
  | .fold id start finish =>
    [(⟨.angle, id⟩, .number cue.start start),
      (⟨.angle, id⟩, .eased cue.finish finish .linear)]
  | .rest => []

end Cue

namespace Stage

variable {α : Type} [Scalar α]

/-- The stage with a target that is visible. -/
def withVisible (stage : Stage α) (target : String) : Stage α :=
  { stage with visible := stage.visible.add target }

/-- The stage with a target that is not visible. -/
def withoutVisible (stage : Stage α) (target : String) : Stage α :=
  { stage with visible := stage.visible.erase target }

/-- The stage with the opacity of a target. -/
def withOpacity (stage : Stage α) (target : String) (opacity : α) : Stage α :=
  { stage with opacities := stage.opacities.insert target opacity }

/-- The stage that an effect leaves. -/
def after (stage : Stage α) : Effect α → Stage α
  | .reveal target => stage.withVisible target
  | .hide target => stage.withoutVisible target
  | .fadeIn target => (stage.withVisible target).withOpacity target 1
  | .fadeOut target => (stage.withoutVisible target).withOpacity target 0
  | .create element =>
    match element.form.opacity? with
    | some opacity => (stage.withVisible element.id).withOpacity element.id opacity
    | none => stage.withVisible element.id
  | .drive parameter _ finish =>
    { stage with parameters := stage.parameters.insert parameter finish }
  | .fold id _ finish => { stage with angles := stage.angles.insert id finish }
  | .highlight .. | .pulse .. | .rest => stage

/-- Goes through some cues: the stage they leave, and all that they write. -/
def follow (stage : Stage α) : List (Cue α) → Stage α × List (Write α)
  | [] => (stage, [])
  | cue :: rest =>
    let (last, more) := (stage.after cue.effect).follow rest
    (last, cue.writes stage ++ more)

end Stage

end Storyboard
