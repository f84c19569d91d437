import Storyboard.Proofs.Timeline.Keys
import Storyboard.Proofs.Timeline.Settled

/-!
# Continuity from scene to scene

A performance hands on a stage, and the next scene opens with keyframes for exactly
that stage.  The last frame of the scene shows the same stage exactly when the scene
is settled.  Steps of one group that touch the same channel and end at different
times can break this.
-/

namespace Storyboard

open Track

/-- The first keyframe of a channel of a segment. -/
def Segment.opening? {α : Type} (s : Segment α) (c : Channel) : Option (Keyframe α) :=
  (s.track? c).bind fun track => track.keyframes[0]?

/-! ## The two ends of a performance -/

section Channels

variable {α : Type}

theorem opening?_of_tracks [Scalar α] {s : Segment α} {ws : List (Write α)}
    (h : s.tracks = ofWrites ws) (c : Channel) :
    s.opening? c = (arrange (keysOf c ws)).head? := by
  rw [Segment.opening?, Segment.track?, h, find?_ofWrites]
  cases keysOf c ws with
  | nil => rfl
  | cons key rest => simp [List.head?_eq_getElem?]

/-- What a stage holds for a channel is shown as it is. -/
theorem bind_update_value? (stage : Stage α) (c : Channel) :
    (stage.value? c).bind (c.update none) = stage.value? c := by
  obtain ⟨property, target⟩ := c
  unfold Stage.value?
  cases property with
  | visibility => cases stage.visible.get? target <;> rfl
  | opacity => cases stage.opacities.get? target <;> rfl
  | highlight => rfl
  | parameter => cases stage.parameters.get? target <;> rfl
  | angle => cases stage.angles.get? target <;> rfl

end Channels

namespace Performance

variable {α : Type} [ExactAnalytic α] {timing : Timing α} {m : Model α}
  {s : Script α} {p : Performance α}

theorem opening?_segment (hpadding : 0 ≤ timing.scenePadding)
    (h : p ∈ s.performances timing m) {c : Channel} {v : KeyValue α}
    (hv : p.stage.value? c = some v) :
    p.segment.opening? c = some ⟨0, v, none⟩ := by
  have hc : c.property ≠ .highlight := Stage.property_ne_highlight hv
  obtain ⟨ws, htracks, hkeys⟩ := tracks_eq h
  rw [opening?_of_tracks htracks, hkeys c hc, hv]
  have hfirst : ∀ k ∈ keysOf c (p.stage.follow (p.scene.cues m)).2,
      (⟨0, v, none⟩ : Keyframe α).time ≤ k.time :=
    fun k hk => (time_of_mem_follow hpadding hk).1
  simp only [Option.toList_some, List.map_cons, List.map_nil, List.singleton_append]
  rw [arrange_cons hfirst]
  rfl

/-- What the cues of a scene leave they leave at its start or later. -/
theorem nonneg_of_mem_leavings {scene : Scene α} {c : Channel} {mark : α × KeyValue α}
    (h : mark ∈ leavings c (scene.cues m)) : 0 ≤ mark.1 := by
  obtain ⟨cue, hcue, hleaving⟩ := mem_leavings.mp h
  obtain ⟨hstart, hduration, -⟩ := Scene.cue_bounds hcue
  exact hstart.trans (Cue.time_of_leaving? hduration hleaving).1

/-- At the end of a scene all of its keyframes are due. -/
theorem time_le_duration (hpadding : 0 ≤ timing.scenePadding)
    (h : p ∈ s.performances timing m) {c : Channel} {k : Keyframe α}
    (hk : k ∈ ((p.stage.value? c).toList.map fun v => (⟨0, v, none⟩ : Keyframe α)) ++
      keysOf c (p.stage.follow (p.scene.cues m)).2) :
    k.time ≤ p.segment.duration := by
  rw [duration_eq h]
  rcases List.mem_append.mp hk with hk | hk
  · obtain ⟨v, -, rfl⟩ := List.mem_map.mp hk
    exact (Action.le_endInTurn le_rfl p.scene.actions).trans
      (Scene.endInTurn_le_length (ExactScalar.isFinite _) hpadding p.scene)
  · exact (time_of_mem_follow hpadding hk).2

/-- At the end of a scene a channel has what was left on it latest, else what was handed. -/
theorem sample?_finish (hpadding : 0 ≤ timing.scenePadding)
    (h : p ∈ s.performances timing m) {c : Channel} (hc : c.property ≠ .highlight) :
    p.segment.sample? c p.segment.duration =
      ((latestBy Prod.fst (leavings c (p.scene.cues m))).map Prod.snd).or
        (p.stage.value? c) := by
  obtain ⟨ws, htracks, hkeys⟩ := tracks_eq h
  have hdurations : ∀ cue ∈ p.scene.cues m, 0 ≤ cue.duration :=
    Scene.duration_nonneg_of_mem_cues
  have hdue : ∀ k ∈ arrange (keysOf c ws), k.time ≤ p.segment.duration := by
    intro k hk
    rw [mem_arrange, hkeys c hc] at hk
    exact time_le_duration hpadding h hk
  rw [sample?_of_tracks htracks, Keyframe.valueAt?_of_forall_le hdue, getLast?_arrange,
    latestBy, hkeys c hc, List.foldl_append]
  -- values follow from the marks, times and values together, of which the lists speak
  have hmarked := foldl_later_follow hc hdurations p.stage
    (((p.stage.value? c).toList.map fun v => (⟨0, v, none⟩ : Keyframe α)).foldl
      (later Keyframe.time) none)
  have hvalues := congrArg (Option.map Prod.snd) hmarked
  rw [Option.map_map] at hvalues
  refine Eq.trans hvalues ?_
  cases p.stage.value? c with
  | none =>
      rw [Option.or_none]
      rfl
  | some v =>
      have hmarks : ∀ mark ∈ leavings c (p.scene.cues m), ((0 : α), v).1 ≤ mark.1 :=
        fun mark => nonneg_of_mem_leavings
      change Option.map _ ((leavings c _).foldl _ (some ((0 : α), v))) = _
      rw [foldl_later_some hmarks, Option.map_or]
      rfl

/-- On a channel the last frame and the stage handed on agree if the two orders of the marks do. -/
theorem value?_frame_finish_iff (hpadding : 0 ≤ timing.scenePadding)
    (h : p ∈ s.performances timing m) (globalTime : α) {c : Channel}
    (hc : c.property ≠ .highlight) :
    (p.segment.frame globalTime p.segment.duration).value? c = p.produced.stage.value? c ↔
      (latestBy Prod.fst (leavings c (p.scene.cues m))).map Prod.snd =
        (leavings c (p.scene.cues m)).getLast?.map Prod.snd := by
  obtain ⟨ws, htracks, -⟩ := tracks_eq h
  have hnodup : (p.segment.tracks.map Track.channel).Nodup := by
    rw [htracks]
    exact nodup_channels_ofWrites ws
  rw [Segment.value?_frame _ hnodup, sample?_finish hpadding h hc, stage_eq h,
    Stage.value?_follow]
  rcases List.eq_nil_or_concat (leavings c (p.scene.cues m)) with hnil | ⟨front, last, hlast⟩
  · rw [hnil]
    exact iff_of_true (bind_update_value? p.stage c) rfl
  · have hne : leavings c (p.scene.cues m) ≠ [] := by simp [hlast]
    obtain ⟨latest, hlatest, hmem⟩ : ∃ mark, latestBy Prod.fst
        (leavings c (p.scene.cues m)) = some mark ∧ mark ∈ leavings c (p.scene.cues m) :=
      exists_mem_latestBy hne
    have hmem' : last ∈ leavings c (p.scene.cues m) := by simp [hlast]
    have hfits : c.Fits latest.2 := fits_of_mem_leavings hmem
    have hfits' : c.Fits last.2 := fits_of_mem_leavings hmem'
    rw [hlatest, hlast, List.concat_eq_append, List.getLast?_concat]
    change c.update none latest.2 = c.update none last.2 ↔ _
    rw [Channel.update_injective hfits hfits']
    simp

/-- At the end of a scene its frame shows the stage handed on exactly when it is settled. -/
theorem frame_finish_shows_iff (hpadding : 0 ≤ timing.scenePadding)
    (h : p ∈ s.performances timing m) (globalTime : α) :
    (p.segment.frame globalTime p.segment.duration).Shows p.produced.stage ↔
      Settled (p.scene.cues m) := by
  rw [Frame.shows_iff]
  constructor
  · intro hshows c
    by_cases hc : c.property = .highlight
    · rw [leavings_eq_nil hc]
      rfl
    · exact (value?_frame_finish_iff hpadding h globalTime hc).mp (hshows c hc)
  · intro hsettled c hc
    exact (value?_frame_finish_iff hpadding h globalTime hc).mpr (hsettled c)

end Performance

/-! ## From scene to scene -/

/--
The scenes of a produced script hand on their stages one to the next, and each opens
with keyframes for the stage that it was handed.  The last frame of a scene shows the
stage that it hands on exactly when the scene is settled, and a scene is settled when
no two steps of one group touch the same channel.
-/
theorem Script.finish_shows_handed_stage_iff {α : Type} [ExactAnalytic α] {m : Model α}
    {s : Script α} {production : Production α}
    (h : s.produce Timing.usual m = .ok production) :
    (s.performances Timing.usual m).map Performance.scene = s.scenes ∧
    production.timeline.segments =
      (s.performances Timing.usual m).map Performance.segment ∧
    (s.performances Timing.usual m).IsChain Performance.HandsTo ∧
    (∀ p ∈ s.performances Timing.usual m, ∀ c v, p.stage.value? c = some v →
      p.segment.opening? c = some ⟨0, v, none⟩) ∧
    (∀ p ∈ s.performances Timing.usual m, ∀ globalTime,
      (p.segment.frame globalTime p.segment.duration).Shows p.produced.stage ↔
        Settled (p.scene.cues m)) ∧
    ∀ p ∈ s.performances Timing.usual m,
      (∀ a ∈ p.scene.actions, a.IsApart m p.scene.id) → Settled (p.scene.cues m) := by
  have hpadding : (0 : α) ≤ (Timing.usual : Timing α).scenePadding :=
    ExactScalar.literal_nonneg _ _ _
  obtain ⟨hscenes, hsegments⟩ := Script.segments_of_produce h
  refine ⟨hscenes, hsegments, Script.isChain_performances _ m s, ?_, ?_, ?_⟩
  · intro p hp c v hv
    exact Performance.opening?_segment hpadding hp hv
  · intro p hp globalTime
    exact Performance.frame_finish_shows_iff hpadding hp globalTime
  · intro p _ hapart
    exact Scene.settled_of_isApart hapart

/-- A group in which a target fades out for two seconds, and at the same time in for one. -/
def crossingScene {α : Type} [Scalar α] : Scene α where
  id := "crossing"
  narration := ""
  camera := Camera.standard
  actions :=
    [.together [.step (.fadeOut "A" (some 2.0)), .step (.fadeIn "A" (some 1.0))]]
  measurements := none

/-- A script of crossing fades and nothing else. -/
def crossingScript {α : Type} [Scalar α] : Script α := ⟨"", [crossingScene]⟩

theorem exists_performance_crossingScript :
    ∃ production produced,
      crossingScript.produce Timing.usual (plainSquare : Model ℝ) = .ok production ∧
      ⟨crossingScene, 0, Stage.initial plainSquare, OrderedMap.empty, produced⟩ ∈
        crossingScript.performances Timing.usual (plainSquare : Model ℝ) :=
  Script.exists_performance_of_single Timing.usual rfl rfl
    (Scene.exists_produce_eq_ok Timing.usual 0 _ rfl rfl rfl)

theorem not_settled_crossingScene :
    ¬ Settled (crossingScene.cues (plainSquare : Model ℝ)) := by
  intro hsettled
  have hopacity := hsettled ⟨.opacity, "A"⟩
  have hmarks : leavings ⟨.opacity, "A"⟩ (crossingScene.cues (plainSquare : Model ℝ)) =
      [(0 + Scalar.nonNegative 2.0, .number 0), (0 + Scalar.nonNegative 1.0, .number 1)] :=
    rfl
  have hlater : ¬ (Scalar.nonNegative 2.0 : ℝ) ≤ Scalar.nonNegative 1.0 := by
    simp only [ExactScalar.nonNegative_eq_max, ExactScalar.literal_eq]
    norm_num
  rw [hmarks, zero_add, zero_add] at hopacity
  simp [latestBy, later, hlater] at hopacity

theorem Script.finish_shows_handed_stage_iff_crossing :
    ∃ production, crossingScript.produce Timing.usual (plainSquare : Model ℝ) =
      .ok production ∧
    production.timeline.segments =
      (crossingScript.performances Timing.usual (plainSquare : Model ℝ)).map
        Performance.segment ∧
    ∃ p ∈ crossingScript.performances Timing.usual (plainSquare : Model ℝ),
      p.scene = crossingScene ∧ ∀ globalTime,
        ((p.segment.frame globalTime p.segment.duration).Shows p.produced.stage ↔
          Settled (crossingScene.cues (plainSquare : Model ℝ))) := by
  obtain ⟨production, produced, h, hp⟩ := exists_performance_crossingScript
  obtain ⟨-, hsegments, -, -, hshows, -⟩ := Script.finish_shows_handed_stage_iff h
  exact ⟨production, h, hsegments, _, hp, rfl, hshows _ hp⟩

/-- At the end of crossing fades the target is gone, but it is handed on as visible. -/
theorem Script.exists_finish_not_shows_handed_stage :
    ∃ production, crossingScript.produce Timing.usual (plainSquare : Model ℝ) =
      .ok production ∧
    ∃ p ∈ crossingScript.performances Timing.usual (plainSquare : Model ℝ),
      ∀ globalTime,
        ¬ (p.segment.frame globalTime p.segment.duration).Shows p.produced.stage := by
  have hpadding : (0 : ℝ) ≤ (Timing.usual : Timing ℝ).scenePadding :=
    ExactScalar.literal_nonneg _ _ _
  obtain ⟨production, produced, h, hp⟩ := exists_performance_crossingScript
  refine ⟨production, h, _, hp, fun globalTime hshows => ?_⟩
  exact not_settled_crossingScene
    ((Performance.frame_finish_shows_iff hpadding hp globalTime).mp hshows)

end Storyboard
