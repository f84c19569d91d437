import Storyboard.Model.Basic
import Storyboard.Timeline.Basic
import Storyboard.Timeline.Bisection

/-!
# Frames

A frame is everything that is to be seen at one time of a timeline.  The time is
brought into the range of the timeline and belongs to one segment.  Every track
of the segment gives the value between its last keyframe that is due and its
first that is not: numbers are interpolated, everything else holds.
-/

namespace Storyboard

variable {α : Type}

/-- Where the camera stands and what it looks at. -/
structure View (α : Type) where
  position : Vec α
  lookAt : Vec α
  spherical : Option (Spherical α)
  deriving DecidableEq, Inhabited

/-- What is to be seen at one time. -/
structure Frame (α : Type) where
  segment : String
  globalTime : α
  localTime : α
  visible : OrderedSet String
  opacities : OrderedMap String α
  highlights : OrderedMap String String
  parameters : OrderedMap String α
  angles : OrderedMap String α
  view : View α
  subtitle : String
  measurements : List String

/-- The setting under which points are located in a frame. -/
def Frame.setting (f : Frame α) : Setting α := ⟨f.parameters, f.angles⟩

/-- Why there is no frame. -/
inductive PlaybackFault where
  | emptyTimeline
  deriving DecidableEq

def PlaybackFault.message : PlaybackFault → String
  | emptyTimeline => "timeline has no scenes"

section Sampling

variable [Scalar α]

/-- A time brought into the range from zero to `max`. -/
def timeWithin (max t : α) : α := Scalar.confine 0 (Scalar.nonNegative max) t

/-- The value on the way from one keyframe to the next. -/
def Keyframe.between (prev next : Keyframe α) (t : α) : KeyValue α :=
  match prev.value, next.value with
  | .number a, .number b =>
    let span := next.time - prev.time
    if span ≤ 0 then next.value
    else
      let easing := (next.easing.or prev.easing).getD .linear
      .number (Scalar.interpolate a b (easing.apply ((t - prev.time) / span)))
  | _, _ => prev.value

/-- The value of a track at a time; there is none before the first keyframe. -/
def Keyframe.valueAt? (keys : Array (Keyframe α)) (t : α) : Option (KeyValue α) :=
  match neighbours (fun k => decide (k.time ≤ t)) keys with
  | (none, _) => none
  | (some prev, none) => some prev.value
  | (some prev, some next) => some (prev.between next t)

/-- The frame with the value of a track; a value that does not fit its property is passed over. -/
def Frame.set (f : Frame α) (channel : Channel) (value : KeyValue α) : Frame α :=
  match channel.property, value with
  | .visibility, .bool true => { f with visible := f.visible.add channel.target }
  | .visibility, .bool false => { f with visible := f.visible.erase channel.target }
  | .opacity, .number x => { f with opacities := f.opacities.insert channel.target x }
  | .highlight, .color c => { f with highlights := f.highlights.insert channel.target c }
  | .highlight, .null => { f with highlights := f.highlights.erase channel.target }
  | .parameter, .number x => { f with parameters := f.parameters.insert channel.target x }
  | .angle, .number x => { f with angles := f.angles.insert channel.target x }
  | _, _ => f

/-- The frame with the value of a track at a time, if it has one. -/
def Frame.play (t : α) (f : Frame α) (track : Track α) : Frame α :=
  match Keyframe.valueAt? track.keyframes t with
  | some value => f.set track.channel value
  | none => f

end Sampling

section Playing

variable [Analytic α]

/-- The view of a camera that stands still. -/
def CameraKey.view (k : CameraKey α) : View α :=
  ⟨k.position.position, k.lookAt, some k.position⟩

/-- The view on the way from one position of the camera to the next. -/
def CameraKey.between (prev next : CameraKey α) (t : α) : View α :=
  let span := next.time - prev.time
  let raw := if span ≤ 0 then 1 else (t - prev.time) / span
  let eased := next.easing.apply raw
  let spherical := prev.position.interpolate next.position eased
  ⟨spherical.position, prev.lookAt.interpolate next.lookAt eased, some spherical⟩

/-- The view of a track of the camera at a time; without keyframes all is at the origin. -/
def CameraKey.viewAt (keys : Array (CameraKey α)) (t : α) : View α :=
  match keys[0]? with
  | none => ⟨0, 0, none⟩
  | some first =>
    let (prev?, next?) := neighbours (fun k => decide (k.time ≤ t)) keys
    let prev := prev?.getD first
    match next? with
    | none => prev.view
    | some next => prev.between next t

/-- The frame of a segment before any of its tracks has been played. -/
def Segment.blank (s : Segment α) (globalTime localTime : α) : Frame α where
  segment := s.id
  globalTime := globalTime
  localTime := localTime
  visible := OrderedMap.empty
  opacities := OrderedMap.empty
  highlights := OrderedMap.empty
  parameters := OrderedMap.empty
  angles := OrderedMap.empty
  view := CameraKey.viewAt s.cameraTrack localTime
  subtitle := s.narration
  measurements := s.measurements

/-- The frame of a segment at a time of its own, and the same time of the timeline. -/
def Segment.frame (s : Segment α) (globalTime localTime : α) : Frame α :=
  s.tracks.foldl (Frame.play localTime) (s.blank globalTime localTime)

namespace Timeline

/-- The segment that is played at a time, which is brought into range. -/
def segmentPlaying (timeline : Timeline α) (t : α) : Except PlaybackFault (Segment α) :=
  match timeline.segmentAt? (timeWithin timeline.duration t) with
  | some segment => .ok segment
  | none => .error .emptyTimeline

/-- The frame at a time. -/
def frame (timeline : Timeline α) (t : α) : Except PlaybackFault (Frame α) :=
  (timeline.segmentPlaying t).map fun segment =>
    let globalTime := timeWithin timeline.duration t
    segment.frame globalTime (timeWithin segment.duration (globalTime - segment.start))

end Timeline

end Playing

end Storyboard
