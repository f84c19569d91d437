import Storyboard.Proofs.OrderedMap
import Storyboard.Timeline.Frame
import Storyboard.Timeline.Stage

/-!
# What a frame shows of a channel

A frame is filled track by track.  When no channel has two tracks, what it shows
of a channel is decided by the value of that one track alone: a target is visible
if its track says so, and a number or a color is what its track gives.
-/

namespace Storyboard

variable {α : Type}

/-- What a channel shows once a value has come in; a value that does not fit changes nothing. -/
def Channel.update (c : Channel) (old : Option (KeyValue α)) (v : KeyValue α) :
    Option (KeyValue α) :=
  match c.property, v with
  | .visibility, .bool true => some (.bool true)
  | .visibility, .bool false => none
  | .highlight, .color s => some (.color s)
  | .highlight, .null => none
  | .opacity, .number x | .parameter, .number x | .angle, .number x => some (.number x)
  | _, _ => old

/-- What a frame shows of a channel; a target that is not visible shows nothing. -/
def Frame.value? (f : Frame α) (c : Channel) : Option (KeyValue α) :=
  match c.property with
  | .visibility => (f.visible.get? c.target).map fun _ => .bool true
  | .opacity => (f.opacities.get? c.target).map .number
  | .highlight => (f.highlights.get? c.target).map .color
  | .parameter => (f.parameters.get? c.target).map .number
  | .angle => (f.angles.get? c.target).map .number

/-- What a stage holds for a channel; highlights are not held. -/
def Stage.value? (stage : Stage α) (c : Channel) : Option (KeyValue α) :=
  match c.property with
  | .visibility => (stage.visible.get? c.target).map fun _ => .bool true
  | .opacity => (stage.opacities.get? c.target).map .number
  | .highlight => none
  | .parameter => (stage.parameters.get? c.target).map .number
  | .angle => (stage.angles.get? c.target).map .number

/-- The value of a channel of a segment at a time of its own. -/
def Segment.sample? [Scalar α] (s : Segment α) (c : Channel) (t : α) :
    Option (KeyValue α) :=
  (s.track? c).bind fun track => Keyframe.valueAt? track.keyframes t

theorem KeyValue.map_number_injective {α : Type} :
    Function.Injective (Option.map (number : α → KeyValue α)) := by
  apply Option.map_injective
  intro x y h
  cases h
  rfl

theorem KeyValue.map_color_injective {α : Type} :
    Function.Injective (Option.map (color : String → KeyValue α)) := by
  apply Option.map_injective
  intro c c' h
  cases h
  rfl

theorem Stage.property_ne_highlight {stage : Stage α} {c : Channel} {v : KeyValue α}
    (h : stage.value? c = some v) : c.property ≠ .highlight := by
  intro hc
  simp [Stage.value?, hc] at h

theorem Stage.property_ne_visibility {stage : Stage α} {c : Channel} {x : α}
    (h : stage.value? c = some (.number x)) : c.property ≠ .visibility := by
  intro hc
  simp [Stage.value?, hc] at h

/-- A frame shows a stage when the same targets are visible and the same numbers are set. -/
structure Frame.Shows (f : Frame α) (stage : Stage α) : Prop where
  visible : ∀ id, f.visible.contains id = stage.visible.contains id
  opacities : ∀ id, f.opacities.get? id = stage.opacities.get? id
  parameters : ∀ id, f.parameters.get? id = stage.parameters.get? id
  angles : ∀ id, f.angles.get? id = stage.angles.get? id

namespace Frame

theorem value?_set (f : Frame α) (c channel : Channel) (v : KeyValue α) :
    (f.set channel v).value? c =
      if c = channel then c.update (f.value? c) v else f.value? c := by
  obtain ⟨property, target⟩ := c
  obtain ⟨property', target'⟩ := channel
  by_cases htarget : target = target'
  · subst htarget
    cases property <;> cases property' <;> rcases v with (_ | _) | _ | _ | _ <;>
      simp [set, value?, Channel.update, OrderedSet.add, OrderedMap.get?_insert,
        OrderedMap.get?_erase]
  · cases property <;> cases property' <;> rcases v with (_ | _) | _ | _ | _ <;>
      simp [set, value?, OrderedSet.add, OrderedMap.get?_insert,
        OrderedMap.get?_erase, htarget]

section Playing

variable [Scalar α]

theorem value?_play (f : Frame α) (t : α) (c : Channel) (track : Track α) :
    (f.play t track).value? c =
      if c = track.channel then
        match Keyframe.valueAt? track.keyframes t with
        | some v => c.update (f.value? c) v
        | none => f.value? c
      else f.value? c := by
  rw [play]
  cases Keyframe.valueAt? track.keyframes t with
  | none => simp
  | some v => exact value?_set f c track.channel v

/-- Only the track of a channel has a say in what is shown of it. -/
theorem value?_foldl_play (t : α) (c : Channel) (tracks : List (Track α))
    (hnodup : (tracks.map Track.channel).Nodup) (f : Frame α) :
    (tracks.foldl (play t) f).value? c =
      match (tracks.find? fun track => track.channel == c).bind fun track =>
          Keyframe.valueAt? track.keyframes t with
      | some v => c.update (f.value? c) v
      | none => f.value? c := by
  induction tracks generalizing f with
  | nil => rfl
  | cons track rest ih =>
      rw [List.map_cons, List.nodup_cons] at hnodup
      obtain ⟨hnew, hrest⟩ := hnodup
      rw [List.foldl_cons, ih hrest, value?_play]
      by_cases hc : c = track.channel
      · have hnone : (rest.find? fun other => other.channel == c) = none := by
          rw [List.find?_eq_none]
          intro other hother heq
          exact hnew (List.mem_map.mpr ⟨other, hother, by simpa [hc] using heq⟩)
        subst hc
        simp [hnone]
      · have hbeq : (track.channel == c) = false := by simpa using Ne.symm hc
        simp only [if_neg hc, List.find?_cons, hbeq]

end Playing

/-- A frame shows a stage when it shows what the stage holds on every channel that is handed on. -/
theorem shows_iff {f : Frame α} {stage : Stage α} :
    f.Shows stage ↔
      ∀ c : Channel, c.property ≠ .highlight → f.value? c = stage.value? c := by
  have hunit : ∀ u v : Option Unit, u.isSome = v.isSome → u = v := by
    intro u v h
    cases u <;> cases v <;> simp_all
  have hnumber : ∀ u v : Option α,
      u.map KeyValue.number = v.map KeyValue.number → u = v := by
    intro u v h
    cases u <;> cases v <;> simp_all
  constructor
  · intro h c hc
    have hvisible := h.visible c.target
    rw [OrderedMap.contains_eq_isSome, OrderedMap.contains_eq_isSome] at hvisible
    unfold value? Stage.value?
    split
    · rw [hunit _ _ hvisible]
    · rw [h.opacities]
    · contradiction
    · rw [h.parameters]
    · rw [h.angles]
  · intro h
    refine ⟨fun id => ?_, fun id => ?_, fun id => ?_, fun id => ?_⟩
    · rw [OrderedMap.contains_eq_isSome, OrderedMap.contains_eq_isSome]
      simpa [value?, Stage.value?] using congrArg Option.isSome (h ⟨.visibility, id⟩ (by simp))
    · exact hnumber _ _ (h ⟨.opacity, id⟩ (by simp))
    · exact hnumber _ _ (h ⟨.parameter, id⟩ (by simp))
    · exact hnumber _ _ (h ⟨.angle, id⟩ (by simp))

end Frame

/-- What a frame of a segment shows of a channel is what the track of the channel amounts to. -/
theorem Segment.value?_frame [Analytic α] (s : Segment α)
    (hnodup : (s.tracks.map Track.channel).Nodup) (globalTime localTime : α)
    (c : Channel) :
    (s.frame globalTime localTime).value? c =
      (s.sample? c localTime).bind (c.update none) := by
  have hblank : (s.blank globalTime localTime).value? c = none := by
    obtain ⟨property, target⟩ := c
    cases property <;> rfl
  rw [frame, Frame.value?_foldl_play localTime c s.tracks hnodup, hblank]
  rw [sample?, track?]
  split
  next v hv => rw [hv, Option.bind_some]
  next hv => rw [hv, Option.bind_none]

end Storyboard
