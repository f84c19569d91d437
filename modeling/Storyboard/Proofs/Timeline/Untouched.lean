import Storyboard.Proofs.Timeline.Channels
import Storyboard.Proofs.Timeline.Continuity
import Storyboard.Proofs.Timeline.Highlights

/-!
# Channels that a scene leaves untouched

A segment opens with a keyframe for each thing that the stage holds.  On a channel
that no action of the scene writes to that keyframe stays the only one, or there is
none at all, so that every frame of the scene shows what the stage held.  Highlights
are not held by the stage, hence an untouched target is not highlighted, whatever the
scenes before did.
-/

namespace Storyboard

open Track

/--
A frame keeps what a stage holds, except on some channels.  No target is highlighted,
except on those channels.
-/
structure Frame.Keeps {α : Type} (f : Frame α) (stage : Stage α) (touched : List Channel) :
    Prop where
  visible : ∀ id, ⟨.visibility, id⟩ ∉ touched →
    f.visible.contains id = stage.visible.contains id
  opacities : ∀ id, ⟨.opacity, id⟩ ∉ touched → f.opacities.get? id = stage.opacities.get? id
  parameters : ∀ id, ⟨.parameter, id⟩ ∉ touched →
    f.parameters.get? id = stage.parameters.get? id
  angles : ∀ id, ⟨.angle, id⟩ ∉ touched → f.angles.get? id = stage.angles.get? id
  highlights : ∀ id, ⟨.highlight, id⟩ ∉ touched → f.highlights.get? id = none

/-- A frame keeps a stage where it shows what the stage holds; no stage holds a highlight. -/
theorem Frame.keeps_of_value? {α : Type} {f : Frame α} {stage : Stage α} {touched : List Channel}
    (h : ∀ c, c ∉ touched → f.value? c = stage.value? c) : f.Keeps stage touched where
  visible := by
    intro id hid
    have hvalue := congrArg Option.isSome (h _ hid)
    simp only [value?, Stage.value?, Option.isSome_map] at hvalue
    rw [OrderedMap.contains_eq_isSome, OrderedMap.contains_eq_isSome, hvalue]
  opacities := fun _ hid => KeyValue.map_number_injective (h _ hid)
  parameters := fun _ hid => KeyValue.map_number_injective (h _ hid)
  angles := fun _ hid => KeyValue.map_number_injective (h _ hid)
  highlights := fun _ hid => Option.map_eq_none_iff.mp (h _ hid)

namespace Scene

variable {α : Type} [Analytic α] {timing : Timing α} {fig : Figure α} {start : α}
  {stage : Stage α} {registry : Registry α} {s : Scene α} {produced : Produced α}

/-- To an untouched channel only the stage writes, one keyframe at most. -/
theorem exists_writes_of_notMem_channels
    (h : s.produce timing fig start stage registry = .ok produced) {c : Channel}
    (hc : c ∉ s.channels fig.model) :
    ∃ ws, produced.segment.tracks = ofWrites ws ∧
      keysOf c ws = (stage.value? c).toList.map fun v => ⟨0, v, none⟩ := by
  obtain ⟨-, -, -, htracks, -, -⟩ := produce_eq_ok h
  have hcues : ∀ cue ∈ s.cues fig.model, c ∉ cue.effect.channels :=
    fun cue hcue hmem => hc (channels_of_mem_cues hcue hmem)
  refine ⟨_, htracks, ?_⟩
  have hreleases : keysOf c (releaseWrites (s.length timing) timing.highlightRelease
      (heldHighlights (s.cues fig.model))) = [] := by
    by_cases hproperty : c.property = .highlight
    · obtain ⟨property, id⟩ := c
      obtain rfl : property = .highlight := hproperty
      have hnone : (heldHighlights (s.cues fig.model)).get? id = none := by
        rw [get?_heldHighlights, List.filterMap_eq_nil_iff.mpr]
        · rfl
        · exact fun cue hcue => Effect.highlightOf?_eq_none (hcues cue hcue)
      rw [keysOf_releaseWrites_highlight, hnone]
      rfl
    · exact keysOf_releaseWrites hproperty _ _ _
  rw [keysOf_append, keysOf_append, keysOf_writes, Stage.keysOf_follow_eq_nil hcues, hreleases,
    List.append_nil, List.append_nil]

/-- On an untouched channel every frame of a scene shows what the scene was handed. -/
theorem value?_frame_of_notMem_channels
    (h : s.produce timing fig start stage registry = .ok produced) (globalTime : α)
    {localTime : α} (hlocal : 0 ≤ localTime) {c : Channel} (hc : c ∉ s.channels fig.model) :
    (produced.segment.frame globalTime localTime).value? c = stage.value? c := by
  obtain ⟨ws, htracks, hkeys⟩ := exists_writes_of_notMem_channels h hc
  have hsample : produced.segment.sample? c localTime = stage.value? c := by
    rw [sample?_of_tracks htracks, hkeys, Keyframe.valueAt?_of_forall_le]
    · cases stage.value? c <;> rfl
    · intro k hk
      obtain ⟨v, -, rfl⟩ := List.mem_map.mp (mem_arrange.mp hk)
      exact hlocal
  rw [Segment.value?_frame _ (nodup_channels_of_produce h), hsample, bind_update_value?]

/-- Every frame of a scene keeps what the scene was handed, off the channels of its actions. -/
theorem keeps_frame (h : s.produce timing fig start stage registry = .ok produced)
    (globalTime : α) {localTime : α} (hlocal : 0 ≤ localTime) :
    (produced.segment.frame globalTime localTime).Keeps stage (s.channels fig.model) := by
  apply Frame.keeps_of_value?
  intro c hc
  exact value?_frame_of_notMem_channels h globalTime hlocal hc

end Scene

namespace Script

/--
At every time of a performance its frame keeps what the stage held when the scene
began, except on the channels that the actions of the scene write to, and so does
every frame of the timeline for the scene that is then played.
-/
theorem frames_keep_untouched {α : Type} [Analytic α] [LawfulScalar α] {timing : Timing α}
    {m : Model α} {s : Script α} {production : Production α}
    (h : s.produce timing m = .ok production) :
    (∀ p ∈ s.performances timing m, ∀ globalTime localTime : α, 0 ≤ localTime →
      (p.segment.frame globalTime localTime).Keeps p.stage (p.scene.channels m)) ∧
    ∀ (t : α) (f : Frame α), production.timeline.frame t = .ok f →
      ∃ p ∈ s.performances timing m, production.timeline.segmentPlaying t = .ok p.segment ∧
        f.Keeps p.stage (p.scene.channels m) := by
  have hscene : ∀ p ∈ s.performances timing m, ∀ globalTime localTime : α, 0 ≤ localTime →
      (p.segment.frame globalTime localTime).Keeps p.stage (p.scene.channels m) := by
    intro p hp globalTime localTime hlocal
    obtain ⟨fig, rfl, hproduce⟩ := produce_of_mem_performances hp
    exact Scene.keeps_frame hproduce globalTime hlocal
  refine ⟨hscene, ?_⟩
  intro t f hframe
  obtain ⟨segment, hmem, hplaying, rfl⟩ := Timeline.frame_eq_ok hframe
  rw [(segments_of_produce h).2] at hmem
  obtain ⟨p, hp, rfl⟩ := List.mem_map.mp hmem
  exact ⟨p, hp, hplaying, hscene p hp _ _ (timeWithin_bounds _ _).1⟩

/-- A scene in which nothing happens for a while. -/
def restingScene : Scene Float := ⟨"third", "", Camera.standard, [.step (.wait 1.0)], none⟩

/-- A corner is highlighted in the first scene, and nothing happens in the second. -/
def restingScript : Script Float := ⟨"", [brightScene, restingScene]⟩

theorem frames_keep_untouched_resting :
    ∃ production early late, restingScript.produce Timing.usual plainSquare = .ok production ∧
      production.timeline.frame 0.25 = .ok early ∧
      early.highlights.get? "A" = some highlightColor ∧
      production.timeline.frame 2.0 = .ok late ∧
      (∃ p ∈ restingScript.performances Timing.usual plainSquare,
        production.timeline.segmentPlaying 2.0 = .ok p.segment ∧
        late.Keeps p.stage (p.scene.channels plainSquare)) ∧
      ∃ p ∈ restingScript.performances Timing.usual plainSquare, p.scene = restingScene ∧
        (0 : Float) ≤ 0.5 ∧ (p.segment.frame 2.0 0.5).Keeps p.stage [] := by
  have hrun : ((restingScript.produce Timing.usual plainSquare).toOption.bind fun production =>
      (production.timeline.frame 0.25).toOption.bind fun early =>
        (production.timeline.frame 2.0).toOption.map fun _ =>
          decide (early.highlights.get? "A" = some highlightColor)) = some true := by
    decide +kernel
  obtain ⟨production, hproduce, hrun⟩ := Option.bind_eq_some_iff.mp hrun
  obtain ⟨early, hearly, hrun⟩ := Option.bind_eq_some_iff.mp hrun
  obtain ⟨late, hlate, hrun⟩ := Option.map_eq_some_iff.mp hrun
  have hproduce := eq_ok_of_toOption hproduce
  have hlate := eq_ok_of_toOption hlate
  have hzero : (0 : Float) ≤ 0.5 := TimeScalar.literal_nonneg _ _ _
  obtain ⟨hperformed, hplayed⟩ := frames_keep_untouched hproduce
  obtain ⟨p, hp, hscene, -, -⟩ := exists_last_performance (List.cons_ne_nil _ _) hproduce
  have hresting : p.scene = restingScene := (Option.some.inj hscene).symm
  have hkeeps := hperformed p hp 2.0 0.5 hzero
  rw [hresting] at hkeeps
  exact ⟨production, early, late, hproduce, eq_ok_of_toOption hearly, of_decide_eq_true hrun,
    hlate, hplayed _ _ hlate, p, hp, hresting, hzero, hkeeps⟩

end Script

end Storyboard
