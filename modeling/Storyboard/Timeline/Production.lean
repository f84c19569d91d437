import Storyboard.Script.Basic
import Storyboard.Timeline.Cue

/-!
# Production

A script is produced scene by scene, back to back from time zero.  A scene is as
long as its actions or the reading of its narration, whichever takes longer, and
a little longer.  Its tracks gather what the stage it was handed, its cues, and
the release of its highlights write, each channel in the order of time.

A scene that fails says why, and which elements had been registered by then.
-/

namespace Storyboard

/-- How scenes are timed. -/
structure Timing (α : Type) where
  /-- The characters that are read in a second; no time is reserved if not positive. -/
  charsPerSecond : α
  /-- The seconds added to every scene. -/
  scenePadding : α
  /-- How long before the end of a scene a highlight begins to be released. -/
  highlightRelease : α
  deriving DecidableEq, Inhabited

/-- Five characters a second, half a second of padding, three tenths for a release. -/
def Timing.usual {α : Type} [Scalar α] : Timing α := ⟨5.0, 0.5, 0.3⟩

variable {α : Type}

/-- The results before the first error of a list, and that error. -/
def untilError {ε β : Type} : List (Except ε β) → List β × Option ε
  | [] => ([], none)
  | .error e :: _ => ([], some e)
  | .ok b :: rest =>
    let (results, error) := untilError rest
    (b :: results, error)

/-- Registers the elements that some cues create. -/
def Registry.registerAll (r : Registry α) (cues : List (Cue α)) : Registry α :=
  cues.foldl (fun r cue =>
    match cue.effect with
    | .create element => r.register element
    | _ => r) r

/-- The highlights that some cues leave, by target. -/
def heldHighlights (cues : List (Cue α)) : OrderedMap String String :=
  cues.foldl (fun held cue =>
    match cue.effect with
    | .highlight target color => held.insert target color
    | _ => held) OrderedMap.empty

/-- Keyframes that hold highlights until shortly before the end, and clear them there. -/
def releaseWrites [Scalar α] (duration release : α) (held : OrderedMap String String) :
    List (Write α) :=
  held.entries.flatMap fun (target, color) =>
    [(⟨.highlight, target⟩, .color (Scalar.nonNegative (duration - release)) color),
      (⟨.highlight, target⟩, .clear duration)]

namespace Track

/--
Puts a keyframe into its place among keyframes in the order of time, behind those
of the same time.
-/
def place [Scalar α] (key : Keyframe α) : List (Keyframe α) → List (Keyframe α)
  | [] => [key]
  | k :: rest => if k.time ≤ key.time then k :: place key rest else key :: k :: rest

/-- Adds a write to the keyframes of its channel. -/
def gather [Scalar α] (tracks : OrderedMap Channel (List (Keyframe α))) (w : Write α) :
    OrderedMap Channel (List (Keyframe α)) :=
  tracks.upsert w.1 fun keys => place w.2 (keys.getD [])

/-- The tracks of all that has been written, each where its channel was first written to. -/
def ofWrites [Scalar α] (writes : List (Write α)) : List (Track α) :=
  (writes.foldl gather OrderedMap.empty).entries.map fun e => ⟨e.1, e.2.toArray⟩

end Track

/-- Why a scene could not be produced, and the elements registered up to there. -/
structure Halt (α : Type) where
  fault : ProductionFault
  registry : Registry α

/-- A scene that has been produced, with what it hands on. -/
structure Produced (α : Type) where
  segment : Segment α
  stage : Stage α
  registry : Registry α

namespace Scene

/-- The steps of a scene with the times at which they start. -/
def timedSteps [Scalar α] (s : Scene α) : List (TimedStep α) :=
  Action.timedInTurn 0 s.actions

/-- The time it takes to read the narration of a scene. -/
def readingTime [Scalar α] (timing : Timing α) (s : Scene α) : α :=
  if 0 < timing.charsPerSecond then
    ((s.narration.length : Nat) : α) / timing.charsPerSecond
  else 0

/-- The length of a scene. -/
def length [Scalar α] (timing : Timing α) (s : Scene α) : α :=
  Scalar.larger (s.readingTime timing) (Action.endInTurn 0 s.actions) +
    timing.scenePadding

/--
The point that a shot looks at: the middle of an element if there is one of that
name, else the point of that name.
-/
def lookAt [Analytic α] (fig : Figure α) (stage : Stage α) (registry : Registry α)
    (id : String) : Except Fault (Vec α) :=
  match registry.get? id with
  | some element => do
    let anchors ← element.locate fig stage.setting
    return (Vec.centroid? anchors).getD 0
  | none => fig.locate stage.setting id

/-- The keyframe of the camera, at the start of its scene. -/
def cameraKey [Analytic α] (fig : Figure α) (stage : Stage α) (registry : Registry α)
    (s : Scene α) : Except Fault (CameraKey α) :=
  let shot := s.camera.shot
  (lookAt fig stage registry shot.lookAt).map fun lookAt =>
    ⟨0, shot.position, lookAt, .ofTransition shot.transition⟩

/-- Produces a scene from a time on, with the stage and the elements it was handed. -/
def produce [Analytic α] (timing : Timing α) (fig : Figure α) (start : α)
    (stage : Stage α) (registry : Registry α) (s : Scene α) :
    Except (Halt α) (Produced α) :=
  match s.cameraKey fig stage registry with
  | .error fault => .error ⟨.geometry fault, registry⟩
  | .ok cameraKey =>
    let (cues, fault?) := untilError (s.timedSteps.map (Step.cue fig.model s.id))
    let registry := registry.registerAll cues
    match fault? with
    | some fault => .error ⟨fault, registry⟩
    | none =>
      let (last, writes) := stage.follow cues
      let length := s.length timing
      let releases := releaseWrites length timing.highlightRelease (heldHighlights cues)
      .ok {
        segment := {
          id := s.id
          start := start
          finish := start + length
          narration := s.narration
          measurements := s.measurements.getD []
          cameraTrack := #[cameraKey]
          tracks := Track.ofWrites (stage.writes ++ writes ++ releases) }
        stage := last
        registry := registry }

end Scene

/-- The timeline of a script with the elements it creates. -/
structure Production (α : Type) where
  timeline : Timeline α
  registry : Registry α

namespace Script

/-- Produces scenes one after the other from a time on. -/
def produceFrom [Analytic α] (timing : Timing α) (fig : Figure α) (start : α)
    (stage : Stage α) (registry : Registry α) :
    List (Scene α) → Except ProductionFault (Production α)
  | [] => .ok ⟨⟨start, []⟩, registry⟩
  | s :: rest =>
    match s.produce timing fig start stage registry with
    | .error halt => .error halt.fault
    | .ok produced =>
      match produceFrom timing fig produced.segment.finish produced.stage
        produced.registry rest with
      | .error fault => .error fault
      | .ok production =>
        .ok ⟨⟨production.timeline.duration,
          produced.segment :: production.timeline.segments⟩, production.registry⟩

/-- Produces a script against a model. -/
def produce [Analytic α] (timing : Timing α) (m : Model α) (s : Script α) :
    Except ProductionFault (Production α) :=
  match m.figure with
  | .error fault => .error (.geometry fault)
  | .ok fig => produceFrom timing fig 0 (Stage.initial m) OrderedMap.empty s.scenes

end Script

end Storyboard
