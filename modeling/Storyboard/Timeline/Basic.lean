import Storyboard.OrderedMap
import Storyboard.Space.Spherical
import Storyboard.Timeline.Easing

/-!
# Timelines

A timeline is a row of segments, one for each scene, laid out on one clock.  A
segment carries everything that is needed to play it: a track of keyframes for
every property of every target that it knows of, and a track for the camera.
Times of keyframes count from the start of their segment.
-/

namespace Storyboard

/-- What a keyframe sets a property to; `null` takes a highlight away. -/
inductive KeyValue (α : Type) where
  | bool (b : Bool)
  | number (x : α)
  | color (c : String)
  | null
  deriving DecidableEq, Inhabited

namespace KeyValue

variable {α : Type}

/-- The truth value, if it is one. -/
def bool? : KeyValue α → Option Bool
  | bool b => some b
  | _ => none

/-- The number, if it is one. -/
def number? : KeyValue α → Option α
  | number x => some x
  | _ => none

/-- The color, if it is one. -/
def color? : KeyValue α → Option String
  | color c => some c
  | _ => none

end KeyValue

/-- A value at a time; the easing shapes the way there. -/
structure Keyframe (α : Type) where
  time : α
  value : KeyValue α
  easing : Option Easing
  deriving DecidableEq, Inhabited

/-- The properties that change over time. -/
inductive Property where
  | visibility
  | opacity
  | highlight
  | parameter
  | angle
  deriving DecidableEq, Inhabited

namespace Property

def all : List Property := [visibility, opacity, highlight, parameter, angle]

def name : Property → String
  | visibility => "visibility"
  | opacity => "opacity"
  | highlight => "highlight"
  | parameter => "param"
  | angle => "fold"

def ofName? (name : String) : Option Property := all.find? fun p => p.name == name

end Property

/-- A property of a target. -/
structure Channel where
  property : Property
  target : String
  deriving DecidableEq, Inhabited

/-- The keyframes of a channel in the order of time. -/
structure Track (α : Type) where
  channel : Channel
  keyframes : Array (Keyframe α)
  deriving DecidableEq, Inhabited

/-- A position of the camera at a time. -/
structure CameraKey (α : Type) where
  time : α
  position : Spherical α
  lookAt : Vec α
  easing : Easing
  deriving DecidableEq, Inhabited

/-- A scene laid out from its start up to its finish. -/
structure Segment (α : Type) where
  id : String
  start : α
  finish : α
  narration : String
  measurements : List String
  cameraTrack : Array (CameraKey α)
  tracks : List (Track α)
  deriving DecidableEq, Inhabited

/-- The segments in the order of playing, and where the last one finishes. -/
structure Timeline (α : Type) where
  duration : α
  segments : List (Segment α)
  deriving DecidableEq, Inhabited

namespace Segment

variable {α : Type}

/-- The time between start and finish. -/
def duration [Scalar α] (s : Segment α) : α := s.finish - s.start

/-- The first track of a channel. -/
def track? (s : Segment α) (channel : Channel) : Option (Track α) :=
  s.tracks.find? fun t => t.channel == channel

end Segment

namespace Timeline

variable {α : Type}

/-- The first segment of a name. -/
def segment? (t : Timeline α) (id : String) : Option (Segment α) :=
  t.segments.find? fun s => s.id == id

/--
The segment that is played at a time: the first one that has started and not yet
finished, and the last one from the end of the timeline on or if there is none.
-/
def segmentAt? [Scalar α] (t : Timeline α) (time : α) : Option (Segment α) :=
  if t.duration ≤ time then t.segments.getLast?
  else
    (t.segments.find? fun s => decide (s.start ≤ time ∧ time < s.finish)).or
      t.segments.getLast?

end Timeline

end Storyboard
