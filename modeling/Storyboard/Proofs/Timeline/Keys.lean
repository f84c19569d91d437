import Storyboard.Proofs.Timeline.Performance
import Storyboard.Proofs.Timeline.Sampling

/-!
# The keyframes of a performance

On every channel that is handed on, the track of a segment begins with the value
that was handed, if there was one, and goes on with what the cues write, all of it
within the segment.  Highlights are the only channels that are released.
-/

namespace Storyboard

open Track

/-! ## The keyframes of a channel -/

section Channels

variable {α : Type}

theorem keysOf_map_entries {ν : Type} (m : OrderedMap String ν) (property : Property)
    (key : String × ν → Keyframe α) (c : Channel) :
    keysOf c (m.entries.map fun e => (⟨property, e.1⟩, key e)) =
      if c.property = property then
        (m.get? c.target).toList.map fun v => key (c.target, v)
      else [] := by
  obtain ⟨property', target⟩ := c
  by_cases h : property' = property
  · subst h
    have hfilter := m.filter_entries target
    rw [if_pos rfl]
    calc
      keysOf ⟨property', target⟩
          (m.entries.map fun e => (⟨property', e.1⟩, key e)) =
          (m.entries.filter fun e => e.1 = target).map key := by
        simp [keysOf, List.filter_map, Function.comp_def]
      _ = (m.get? target).toList.map fun v => key (target, v) := by
        rw [hfilter, List.map_map]
        rfl
  · rw [if_neg h]
    apply keysOf_eq_nil
    intro w hw heq
    obtain ⟨e, -, rfl⟩ := List.mem_map.mp hw
    exact h (congrArg Channel.property heq).symm

/-- A stage is set up by one keyframe at the start for each thing it holds. -/
theorem keysOf_writes [Scalar α] (stage : Stage α) (c : Channel) :
    keysOf c stage.writes = (stage.value? c).toList.map fun v => ⟨0, v, none⟩ := by
  have hvisible : stage.visible.keys.map (fun id =>
        ((⟨.visibility, id⟩, Keyframe.flag 0 true) : Write α)) =
      stage.visible.entries.map fun e => (⟨.visibility, e.1⟩, Keyframe.flag 0 true) := by
    rw [OrderedMap.keys, List.map_map]
    rfl
  unfold Stage.writes Stage.opening
  rw [hvisible]
  simp only [keysOf_append, keysOf_map_entries]
  obtain ⟨property, target⟩ := c
  unfold Stage.value?
  cases property <;> simp [Keyframe.flag, Keyframe.number, Option.toList_map, Function.comp_def]

/-- Releases concern highlights alone. -/
theorem keysOf_releaseWrites [Scalar α] {c : Channel} (hc : c.property ≠ .highlight)
    (duration release : α) (held : OrderedMap String String) :
    keysOf c (releaseWrites duration release held) = [] := by
  apply keysOf_eq_nil
  intro w hw heq
  obtain ⟨e, -, hw⟩ := List.mem_flatMap.mp hw
  simp only [List.mem_cons, List.not_mem_nil, or_false] at hw
  rcases hw with rfl | rfl <;> exact hc (congrArg Channel.property heq).symm

theorem sample?_of_tracks [Scalar α] {s : Segment α} {ws : List (Write α)}
    (h : s.tracks = ofWrites ws) (c : Channel) (t : α) :
    s.sample? c t = Keyframe.valueAt? (arrange (keysOf c ws)).toArray t := by
  have hnone : ∀ k ∈ ([] : List (Keyframe α)), k.time ≤ t := by simp
  rw [Segment.sample?, Segment.track?, h, find?_ofWrites]
  cases keysOf c ws with
  | nil => exact (Keyframe.valueAt?_of_forall_le hnone).symm
  | cons key rest => rfl

end Channels

/-! ## The tracks of a performance -/

/-- A scene writes to a channel what it was handed for it, and then what its cues write. -/
theorem Scene.exists_writes_of_produce {α : Type} [Analytic α] {timing : Timing α}
    {fig : Figure α} {start : α} {stage : Stage α} {registry : Registry α} {s : Scene α}
    {produced : Produced α}
    (h : s.produce timing fig start stage registry = .ok produced) :
    ∃ ws, produced.segment.tracks = ofWrites ws ∧
      ∀ c : Channel, c.property ≠ .highlight →
        keysOf c ws =
          ((stage.value? c).toList.map fun v => (⟨0, v, none⟩ : Keyframe α)) ++
            keysOf c (stage.follow (s.cues fig.model)).2 := by
  obtain ⟨-, -, -, htracks, -, -⟩ := produce_eq_ok h
  refine ⟨_, htracks, fun c hc => ?_⟩
  rw [keysOf_append, keysOf_append, keysOf_writes, keysOf_releaseWrites hc,
    List.append_nil]

namespace Performance

variable {α : Type} [ExactAnalytic α] {timing : Timing α} {m : Model α}
  {s : Script α} {p : Performance α}

/-- The keyframes of a channel that is handed on: what was handed, then what the cues write. -/
theorem tracks_eq (h : p ∈ s.performances timing m) :
    ∃ ws, p.segment.tracks = ofWrites ws ∧
      ∀ c : Channel, c.property ≠ .highlight →
        keysOf c ws =
          ((p.stage.value? c).toList.map fun v => (⟨0, v, none⟩ : Keyframe α)) ++
            keysOf c (p.stage.follow (p.scene.cues m)).2 := by
  obtain ⟨fig, rfl, hproduce⟩ := Script.produce_of_mem_performances h
  exact Scene.exists_writes_of_produce hproduce

theorem duration_eq (h : p ∈ s.performances timing m) :
    p.segment.duration = p.scene.length timing := by
  obtain ⟨fig, rfl, hproduce⟩ := Script.produce_of_mem_performances h
  obtain ⟨-, hstart, hfinish, -, -, -⟩ := Scene.produce_eq_ok hproduce
  rw [Segment.duration, segment, hstart, hfinish, add_sub_cancel_left]

theorem stage_eq (h : p ∈ s.performances timing m) :
    p.produced.stage = (p.stage.follow (p.scene.cues m)).1 := by
  obtain ⟨fig, rfl, hproduce⟩ := Script.produce_of_mem_performances h
  obtain ⟨-, -, -, -, hstage, -⟩ := Scene.produce_eq_ok hproduce
  exact hstage

/-- A cue keys a channel within the scene. -/
theorem time_of_mem_follow (hpadding : 0 ≤ timing.scenePadding) {scene : Scene α}
    {stage : Stage α} {c : Channel} {k : Keyframe α}
    (h : k ∈ keysOf c (stage.follow (scene.cues m)).2) :
    0 ≤ k.time ∧ k.time ≤ scene.length timing := by
  obtain ⟨cue, hcue, found, hw⟩ := Stage.mem_follow (mem_keysOf.mp h)
  obtain ⟨hstart, hduration, hfinish⟩ := Scene.cue_bounds hcue
  obtain ⟨hlow, hhigh⟩ := Cue.time_of_mem_writes hduration hw
  exact ⟨hstart.trans hlow,
    hhigh.trans (hfinish.trans (Scene.endInTurn_le_length (ExactScalar.isFinite _) hpadding scene))⟩

end Performance

end Storyboard
