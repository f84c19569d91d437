import Storyboard.Proofs.Number.DoubleTimes
import Storyboard.Proofs.Timeline.Glow
import Storyboard.Proofs.Timeline.Layout

/-!
# Highlights at the end of a timeline

Whatever a scene highlights is cleared at its length.  From the end of the timeline on
the last scene is shown at the time that it lasts, which is told by its finish less
its start.  With exact numbers that is its length.  In double precision the finish is
rounded before the start is taken from it, and the time reached can fall short of the
length; then the highlights that the scene holds are still there.
-/

namespace Storyboard

open Track

/-! ## The end of a scene -/

/-- A timing with some padding that does not release highlights after the end. -/
structure Timing.IsRegular {α : Type} [Scalar α] (timing : Timing α) : Prop where
  charsPerSecond : Scalar.isFinite timing.charsPerSecond = true
  scenePadding : 0 < timing.scenePadding
  highlightRelease : 0 ≤ timing.highlightRelease
  finiteRelease : Scalar.isFinite timing.highlightRelease = true

section Ends

variable {α : Type} [Scalar α] {timing : Timing α}

/-- When the highlights that a scene holds begin to be released. -/
def Scene.releaseTime (timing : Timing α) (s : Scene α) : α :=
  Scalar.nonNegative (s.length timing - timing.highlightRelease)

/-- When the last action of a scene has ended. -/
def Scene.actionsEnd (s : Scene α) : α := Action.endInTurn 0 s.actions

variable [TimeScalar α]

open LawfulScalar TimeScalar

theorem Timing.IsRegular.length_pos (h : timing.IsRegular) (s : Scene α) :
    0 < s.length timing :=
  Scene.length_pos h.charsPerSecond h.scenePadding s

theorem Scene.actionsEnd_le_length (h : timing.IsRegular) (s : Scene α) :
    s.actionsEnd ≤ s.length timing :=
  endInTurn_le_length h.charsPerSecond (lt_iff.mp h.scenePadding).1 s

theorem Scene.releaseTime_le_length (h : timing.IsRegular) (s : Scene α) :
    s.releaseTime timing ≤ s.length timing := by
  have hlength : 0 ≤ s.length timing :=
    (lt_iff.mp (h.length_pos s)).1
  unfold releaseTime Scalar.nonNegative Scalar.larger
  split_ifs
  · exact sub_le hlength h.highlightRelease h.finiteRelease
  · exact hlength

/-- A keyframe that is written last and is not earlier than any other holds once it is due. -/
theorem Keyframe.valueAt?_concat {keys : List (Keyframe α)} {last : Keyframe α} {t : α}
    (hkeys : ∀ k ∈ keys, k.time ≤ last.time) (hlast : last.time ≤ t) :
    valueAt? (arrange (keys ++ [last])).toArray t = some last.value := by
  have hdue : ∀ k ∈ arrange keys ++ [last], k.time ≤ t :=
    List.forall_mem_append.mpr
      ⟨fun k hk => le_trans (hkeys k (mem_arrange.mp hk)) hlast,
        List.forall_mem_singleton.mpr hlast⟩
  rw [arrange_concat hkeys, valueAt?_of_forall_le hdue, List.getLast?_concat]
  rfl

end Ends

theorem KeyValue.color_injective {α : Type} :
    Function.Injective (KeyValue.color : String → KeyValue α) := by
  intro a b h
  cases h
  rfl

namespace Performance

variable {α : Type} [Analytic α] {timing : Timing α} {m : Model α} {s : Script α}
  {p : Performance α}

/-- The track of a highlight: what the cues write, then the release of what they hold. -/
theorem sample?_highlight (h : p ∈ s.performances timing m) (id : String) (t : α) :
    p.segment.sample? ⟨.highlight, id⟩ t =
      Keyframe.valueAt? (arrange ((p.scene.cues m).flatMap (Cue.glow id) ++
        ((heldHighlights (p.scene.cues m)).get? id).toList.flatMap fun color =>
          [.color (p.scene.releaseTime timing) color,
            .clear (p.scene.length timing)])).toArray t := by
  obtain ⟨fig, rfl, hproduce⟩ := Script.produce_of_mem_performances h
  obtain ⟨-, -, -, htracks, -, -⟩ := Scene.produce_eq_ok hproduce
  have hstage : keysOf ⟨.highlight, id⟩ p.stage.writes = [] := by
    rw [keysOf_writes]
    rfl
  rw [segment, sample?_of_tracks htracks, keysOf_append, keysOf_append, hstage, List.nil_append,
    Stage.keysOf_follow_highlight, keysOf_releaseWrites_highlight]
  rfl

variable [TimeScalar α]

open LawfulScalar TimeScalar

/-- What the cues of a scene write to a highlight is due when the last action has ended. -/
theorem time_le_of_mem_glow {id : String} {k : Keyframe α}
    (h : k ∈ (p.scene.cues m).flatMap (Cue.glow id)) : k.time ≤ p.scene.actionsEnd := by
  obtain ⟨cue, hcue, hk⟩ := List.mem_flatMap.mp h
  obtain ⟨hstart, hduration, hfinish⟩ := Scene.cue_bounds hcue
  exact le_trans
    (Cue.time_le_of_mem_glow (Scene.isRegular_of_mem_cues hcue) hstart hduration hk) hfinish

/-- A highlight that is not held is cleared when its last pulse is over. -/
theorem highlight_of_unheld (h : p ∈ s.performances timing m) {id : String}
    (hheld : (heldHighlights (p.scene.cues m)).get? id = none) {t : α}
    (ht : p.scene.actionsEnd ≤ t) :
    (p.segment.sample? ⟨.highlight, id⟩ t).bind (Channel.update ⟨.highlight, id⟩ none) = none := by
  have hkeys : ∀ cue ∈ p.scene.cues m, cue.finish ≤ p.scene.actionsEnd := by
    intro cue hcue
    exact (Scene.cue_bounds hcue).2.2
  rw [sample?_highlight h, hheld, Option.toList_none, List.flatMap_nil, List.append_nil]
  rcases glow_of_pulses (fun _ => Scene.isRegular_of_mem_cues)
    (fun _ hcue => (Scene.cue_bounds hcue).1) (p.scene.pairwise_cues m)
    (effect_ne_of_get?_heldHighlights hheld) with hnone | ⟨keys, cue, hcue, hsome, hlast⟩
  · rw [hnone, arrange, List.foldl_nil, Keyframe.valueAt?_of_forall_le (List.forall_mem_nil _)]
    rfl
  · rw [hsome, Keyframe.valueAt?_concat hlast (le_trans (hkeys cue hcue) ht)]
    rfl

/-- The track of a held highlight ends with the release and the clearing of its color. -/
theorem sample?_held (htiming : timing.IsRegular) (h : p ∈ s.performances timing m) {id : String}
    {color : String} (hheld : (heldHighlights (p.scene.cues m)).get? id = some color) (t : α) :
    p.segment.sample? ⟨.highlight, id⟩ t =
      Keyframe.valueAt? (arrange ((p.scene.cues m).flatMap (Cue.glow id) ++
        [Keyframe.color (p.scene.releaseTime timing) color]) ++
          [Keyframe.clear (p.scene.length timing)]).toArray t ∧
    ∀ k ∈ arrange ((p.scene.cues m).flatMap (Cue.glow id) ++
      [Keyframe.color (p.scene.releaseTime timing) color]), k.time ≤ p.scene.length timing := by
  have hlast : ∀ k ∈ (p.scene.cues m).flatMap (Cue.glow id) ++
      [Keyframe.color (p.scene.releaseTime timing) color],
      k.time ≤ (Keyframe.clear (p.scene.length timing)).time :=
    List.forall_mem_append.mpr
      ⟨fun k hk => le_trans (time_le_of_mem_glow hk) (p.scene.actionsEnd_le_length htiming),
        List.forall_mem_singleton.mpr (p.scene.releaseTime_le_length htiming)⟩
  refine ⟨?_, fun k hk => hlast k (mem_arrange.mp hk)⟩
  rw [sample?_highlight h, hheld, Option.toList_some, List.flatMap_singleton,
    List.append_cons, arrange_concat hlast]

/-- Once the end of a scene is reached, none of its highlights is left. -/
theorem highlight_of_length_le (htiming : timing.IsRegular) (h : p ∈ s.performances timing m)
    (id : String) {t : α} (ht : p.scene.length timing ≤ t) :
    (p.segment.sample? ⟨.highlight, id⟩ t).bind (Channel.update ⟨.highlight, id⟩ none) = none := by
  cases hheld : (heldHighlights (p.scene.cues m)).get? id with
  | none => exact highlight_of_unheld h hheld (le_trans (p.scene.actionsEnd_le_length htiming) ht)
  | some color =>
      obtain ⟨hsample, hle⟩ := sample?_held htiming h hheld t
      rw [hsample, Keyframe.valueAt?_of_forall_le, List.getLast?_concat]
      · rfl
      · exact List.forall_mem_append.mpr
          ⟨fun k hk => le_trans (hle k hk) ht, List.forall_mem_singleton.mpr ht⟩

/-- Between the release and the end of a scene its held highlights are all that is left. -/
theorem highlight_of_releaseTime_le (htiming : timing.IsRegular)
    (h : p ∈ s.performances timing m) (id : String) {t : α}
    (hactions : p.scene.actionsEnd ≤ p.scene.releaseTime timing)
    (hrelease : p.scene.releaseTime timing ≤ t) (ht : ¬ p.scene.length timing ≤ t) :
    (p.segment.sample? ⟨.highlight, id⟩ t).bind (Channel.update ⟨.highlight, id⟩ none) =
      ((heldHighlights (p.scene.cues m)).get? id).map .color := by
  cases hheld : (heldHighlights (p.scene.cues m)).get? id with
  | none => exact highlight_of_unheld h hheld (le_trans hactions hrelease)
  | some color =>
      obtain ⟨hsample, -⟩ := sample?_held htiming h hheld t
      have hcolor : ∀ k ∈ (p.scene.cues m).flatMap (Cue.glow id),
          k.time ≤ (Keyframe.color (p.scene.releaseTime timing) color).time :=
        fun k hk => le_trans (time_le_of_mem_glow hk) hactions
      have hdue : ∀ k ∈ arrange ((p.scene.cues m).flatMap (Cue.glow id)) ++
          [Keyframe.color (p.scene.releaseTime timing) color], k.time ≤ t :=
        List.forall_mem_append.mpr
          ⟨fun k hk => le_trans (hcolor k (mem_arrange.mp hk)) hrelease,
            List.forall_mem_singleton.mpr hrelease⟩
      have hclear : ∀ k ∈ [Keyframe.clear (p.scene.length timing)], ¬ k.time ≤ t :=
        List.forall_mem_singleton.mpr ht
      rw [hsample, arrange_concat hcolor, Keyframe.valueAt?_append hdue hclear,
        List.getLast?_concat]
      rfl

end Performance

/-! ## The end of a timeline -/

namespace Script

variable {α : Type} [Analytic α] {timing : Timing α} {m : Model α} {s : Script α}
  {production : Production α}

/-- Scenes that are produced from a time on last until the last of them is finished. -/
theorem duration_of_produceFrom {fig : Figure α} {start : α} {stage : Stage α}
    {registry : Registry α} {scenes : List (Scene α)}
    (h : produceFrom timing fig start stage registry scenes = .ok production) :
    production.timeline.duration =
      (production.timeline.segments.getLast?.map Segment.finish).getD start := by
  induction scenes generalizing start stage registry production with
  | nil =>
      cases h
      rfl
  | cons s rest ih =>
      rw [produceFrom] at h
      split at h
      next => cases h
      next produced hproduce =>
        split at h
        next => cases h
        next rested hrest =>
          cases h
          dsimp only
          rw [ih hrest, List.getLast?_cons]
          cases rested.timeline.segments.getLast? <;> rfl

theorem exists_last_performance (hscenes : s.scenes ≠ [])
    (h : s.produce timing m = .ok production) :
    ∃ p ∈ s.performances timing m, s.scenes.getLast? = some p.scene ∧
      production.timeline.segments.getLast? = some p.segment ∧
      production.timeline.duration = p.segment.finish := by
  obtain ⟨hperformed, hsegments⟩ := segments_of_produce h
  have hsome : s.performances timing m ≠ [] := by
    intro hnil
    rw [hnil] at hperformed
    exact hscenes hperformed.symm
  obtain ⟨p, hlast⟩ : ∃ p, (s.performances timing m).getLast? = some p :=
    ⟨_, List.getLast?_eq_some_getLast hsome⟩
  have hsegment : production.timeline.segments.getLast? = some p.segment := by
    rw [hsegments, List.getLast?_map, hlast]
    rfl
  refine ⟨p, List.mem_of_getLast? hlast, ?_, hsegment, ?_⟩
  · rw [← hperformed, List.getLast?_map, hlast]
    rfl
  · rw [produce] at h
    split at h
    · cases h
    · rw [duration_of_produceFrom h, hsegment]
      rfl

/-- What the frames of a performance show of a highlight. -/
theorem highlights_frame {p : Performance α} (h : p ∈ s.performances timing m)
    (globalTime localTime : α) (id : String) :
    ((p.segment.frame globalTime localTime).highlights.get? id).map KeyValue.color =
      (p.segment.sample? ⟨.highlight, id⟩ localTime).bind
        (Channel.update ⟨.highlight, id⟩ none) := by
  obtain ⟨fig, rfl, hproduce⟩ := produce_of_mem_performances h
  have hnodup : (p.segment.tracks.map Track.channel).Nodup :=
    Scene.nodup_channels_of_produce hproduce
  exact p.segment.value?_frame hnodup globalTime localTime ⟨.highlight, id⟩

variable [TimeScalar α]

open LawfulScalar TimeScalar

/-- Scenes that are produced from a time on start at that time or later. -/
theorem start_nonneg_of_mem_performFrom (htiming : timing.IsRegular) {fig : Figure α} {start : α}
    {stage : Stage α} {registry : Registry α} {scenes : List (Scene α)} (hstart : 0 ≤ start) :
    ∀ p ∈ performFrom timing fig start stage registry scenes, 0 ≤ p.start := by
  induction scenes generalizing start stage registry with
  | nil => exact List.forall_mem_nil _
  | cons s rest ih =>
      rw [performFrom]
      split
      next => exact List.forall_mem_nil _
      next produced hproduce =>
        obtain ⟨-, -, hfinish, -⟩ := Scene.produce_eq_ok hproduce
        refine List.forall_mem_cons.mpr ⟨hstart, ih ?_⟩
        rw [hfinish]
        exact add_nonneg hstart (lt_iff.mp (htiming.length_pos s)).1

theorem start_nonneg_of_mem_performances (htiming : timing.IsRegular) {p : Performance α}
    (h : p ∈ s.performances timing m) : 0 ≤ p.start := by
  unfold performances at h
  split at h
  · exact absurd h List.not_mem_nil
  · exact start_nonneg_of_mem_performFrom htiming zero_le_zero p h

/-- From the end of a timeline on there is one frame, the last of the last scene. -/
theorem frame_of_duration_le (htiming : timing.IsRegular) {p : Performance α}
    (hp : p ∈ s.performances timing m)
    (hlast : production.timeline.segments.getLast? = some p.segment)
    (hduration : production.timeline.duration = p.segment.finish) {t : α}
    (ht : production.timeline.duration ≤ t) :
    production.timeline.frame t = .ok (p.segment.frame p.segment.finish
      (timeWithin p.segment.duration p.segment.duration)) := by
  obtain ⟨fig, rfl, hproduce⟩ := produce_of_mem_performances hp
  obtain ⟨-, -, hfinish, -⟩ := Scene.produce_eq_ok hproduce
  have hpos : 0 < production.timeline.duration := by
    rw [hduration, Performance.segment, hfinish]
    exact Scalar.lt_of_lt_of_le (htiming.length_pos p.scene)
      (le_add_left (start_nonneg_of_mem_performances htiming hp)
        (lt_iff.mp (htiming.length_pos p.scene)).1)
  have hend : timeWithin production.timeline.duration t = production.timeline.duration :=
    timeWithin_of_max_le hpos ht
  have hplaying : production.timeline.segmentPlaying t = .ok p.segment := by
    rw [Timeline.segmentPlaying_eq_ok, Timeline.segmentAt?, hend, if_pos (left_defined ht), hlast]
  rw [Timeline.frame, hplaying, hend, hduration]
  rfl

/--
The frame at the end of a timeline shows no highlight, provided that the last scene
lasts as long as its length, as told by its start and its finish.  If it lasts less,
but not so much that a release has not begun, then just the highlights that the scene
holds are left.
-/
theorem highlights_at_end (htiming : timing.IsRegular) (hscenes : s.scenes ≠ [])
    (h : s.produce timing m = .ok production) :
    ∃ p ∈ s.performances timing m, s.scenes.getLast? = some p.scene ∧
      production.timeline.segments.getLast? = some p.segment ∧
      ∃ f, (∀ t, production.timeline.duration ≤ t → production.timeline.frame t = .ok f) ∧
        (p.scene.length timing ≤ p.segment.duration → f.highlights = OrderedMap.empty) ∧
        (p.scene.actionsEnd ≤ p.scene.releaseTime timing →
          p.scene.releaseTime timing ≤ p.segment.duration →
          ¬ p.scene.length timing ≤ p.segment.duration →
          ∀ id, f.highlights.get? id = (heldHighlights (p.scene.cues m)).get? id) := by
  obtain ⟨p, hp, hscene, hlast, hduration⟩ := exists_last_performance hscenes h
  have hpos : 0 < p.scene.length timing := htiming.length_pos p.scene
  refine ⟨p, hp, hscene, hlast, _,
    fun t ht => frame_of_duration_le htiming hp hlast hduration ht, ?_, ?_⟩
  · intro hlength
    rw [OrderedMap.eq_empty_iff]
    intro id
    have hreached := (le_timeWithin_self_iff hpos).mpr hlength
    have hnone := Performance.highlight_of_length_le htiming hp id hreached
    rw [← highlights_frame hp] at hnone
    exact Option.map_eq_none_iff.mp hnone
  · intro hactions hrelease hlength id
    have hreached : p.scene.releaseTime timing ≤
        timeWithin p.segment.duration p.segment.duration := by
      rw [timeWithin_self (le_trans (Scalar.zero_le_nonNegative _) hrelease)]
      exact hrelease
    have hnot := mt (le_timeWithin_self_iff hpos).mp hlength
    have hheld := Performance.highlight_of_releaseTime_le htiming hp id hactions hreached hnot
    rw [← highlights_frame hp] at hheld
    exact Option.map_injective KeyValue.color_injective hheld

end Script

/-- With exact numbers no highlight is left at the end of a timeline. -/
theorem Script.no_highlight_at_end {α : Type} [ExactAnalytic α] {timing : Timing α}
    {m : Model α} {s : Script α} {production : Production α} (hpadding : 0 < timing.scenePadding)
    (hrelease : 0 ≤ timing.highlightRelease) (hscenes : s.scenes ≠ [])
    (h : s.produce timing m = .ok production) {t : α} (ht : production.timeline.duration ≤ t) :
    ∃ f, production.timeline.frame t = .ok f ∧ f.highlights = OrderedMap.empty := by
  have htiming : timing.IsRegular :=
    ⟨ExactScalar.isFinite _, hpadding, hrelease, ExactScalar.isFinite _⟩
  obtain ⟨p, hp, -, -, f, hframe, hclear, -⟩ := highlights_at_end htiming hscenes h
  exact ⟨f, hframe t ht, hclear (Performance.duration_eq hp).ge⟩

/-! ## Double precision -/

theorem Timing.isRegular_usual : (Timing.usual : Timing Float).IsRegular where
  charsPerSecond := by decide +kernel
  scenePadding := by decide +kernel
  highlightRelease := TimeScalar.literal_nonneg _ _ _
  finiteRelease := by decide +kernel

namespace Script

/--
With the usual timing the frame at the end of a timeline shows no highlight if the last
scene lasts as long as its length, where what it lasts is its rounded finish less its
start.  Where it lasts less, but the release has begun after all of its actions, no
highlight is shown only if the scene holds none.
-/
theorem no_highlight_at_end_iff {m : Model Float} {s : Script Float}
    {production : Production Float} (hscenes : s.scenes ≠ [])
    (h : s.produce Timing.usual m = .ok production) :
    ∃ p ∈ s.performances Timing.usual m, s.scenes.getLast? = some p.scene ∧
      production.timeline.segments.getLast? = some p.segment ∧
      p.segment.duration = p.start + p.scene.length Timing.usual - p.start ∧
      ∃ f, (∀ t, production.timeline.duration ≤ t → production.timeline.frame t = .ok f) ∧
        (p.scene.length Timing.usual ≤ p.segment.duration → f.highlights = OrderedMap.empty) ∧
        (p.scene.actionsEnd ≤ p.scene.releaseTime Timing.usual →
          p.scene.releaseTime Timing.usual ≤ p.segment.duration →
          (f.highlights = OrderedMap.empty ↔
            p.scene.length Timing.usual ≤ p.segment.duration ∨
              heldHighlights (p.scene.cues m) = OrderedMap.empty)) := by
  obtain ⟨p, hp, hscene, hlast, f, hframe, hclear, hheld⟩ :=
    highlights_at_end Timing.isRegular_usual hscenes h
  have hduration : p.segment.duration = p.start + p.scene.length Timing.usual - p.start := by
    obtain ⟨fig, rfl, hproduce⟩ := produce_of_mem_performances hp
    obtain ⟨-, hstart, hfinish, -⟩ := Scene.produce_eq_ok hproduce
    rw [Performance.segment, Segment.duration, hstart, hfinish]
  refine ⟨p, hp, hscene, hlast, hduration, f, hframe, hclear, ?_⟩
  intro hactions hrelease
  by_cases hlength : p.scene.length Timing.usual ≤ p.segment.duration
  · exact iff_of_true (hclear hlength) (Or.inl hlength)
  · have hsame := hheld hactions hrelease hlength
    rw [or_iff_right hlength, OrderedMap.eq_empty_iff, OrderedMap.eq_empty_iff]
    simp only [hsame]

theorem eq_ok_of_toOption {ε β : Type} {e : Except ε β} {b : β} (h : e.toOption = some b) :
    e = .ok b := by
  cases e with
  | error fault => cases h
  | ok b' => exact congrArg Except.ok (Option.some.inj h)

/-- A scene in which a corner is highlighted. -/
def brightScene : Scene Float :=
  ⟨"second", "", Camera.standard, [.step (.highlight "A" none)], none⟩

/-- Two scenes: a corner is faded in, then it is highlighted. -/
def brightScript : Script Float :=
  ⟨"", [⟨"first", "", Camera.standard, [.step (.fadeIn "A" none)], none⟩, brightScene]⟩

/-- The second scene starts at 1.3 and is 1.5 long, which is 2.8 less 1.3 but for rounding. -/
theorem bright_at_end :
    ∃ production segment f, brightScript.produce Timing.usual plainSquare = .ok production ∧
      production.timeline.segments.getLast? = some segment ∧
      production.timeline.frame 2.8 = .ok f ∧ production.timeline.duration ≤ 2.8 ∧
      brightScene.releaseTime Timing.usual ≤ segment.duration ∧
      f.highlights.get? "A" = some highlightColor := by
  have hrun : ((brightScript.produce Timing.usual plainSquare).toOption.bind fun production =>
      production.timeline.segments.getLast?.bind fun segment =>
        (production.timeline.frame 2.8).toOption.map fun f =>
          decide (production.timeline.duration ≤ 2.8 ∧
            brightScene.releaseTime Timing.usual ≤ segment.duration ∧
            f.highlights.get? "A" = some highlightColor)) = some true := by decide +kernel
  obtain ⟨production, hproduce, hrun⟩ := Option.bind_eq_some_iff.mp hrun
  obtain ⟨segment, hsegment, hrun⟩ := Option.bind_eq_some_iff.mp hrun
  obtain ⟨f, hframe, hrun⟩ := Option.map_eq_some_iff.mp hrun
  exact ⟨production, segment, f, eq_ok_of_toOption hproduce, hsegment,
    eq_ok_of_toOption hframe, of_decide_eq_true hrun⟩

theorem no_highlight_at_end_iff_bright :
    ∃ production segment f, brightScript.produce Timing.usual plainSquare = .ok production ∧
      production.timeline.segments.getLast? = some segment ∧
      production.timeline.frame 2.8 = .ok f ∧
      (f.highlights = OrderedMap.empty ↔ brightScene.length Timing.usual ≤ segment.duration ∨
        heldHighlights (brightScene.cues plainSquare) = OrderedMap.empty) := by
  have hscenes : brightScript.scenes ≠ [] := List.cons_ne_nil _ _
  have hactions : brightScene.actionsEnd ≤ brightScene.releaseTime Timing.usual := by
    decide +kernel
  obtain ⟨production, segment, f, hproduce, hsegment, hframe, hend, hrelease, -⟩ := bright_at_end
  obtain ⟨p, -, hlast, hlast', -, f', hframes, -, hiff⟩ :=
    no_highlight_at_end_iff hscenes hproduce
  obtain rfl : p.segment = segment := Option.some.inj (hlast'.symm.trans hsegment)
  have hscene : p.scene = brightScene := (Option.some.inj hlast).symm
  have hsame : f' = f := Except.ok.inj ((hframes 2.8 hend).symm.trans hframe)
  rw [hscene, hsame] at hiff
  exact ⟨production, p.segment, f, hproduce, hsegment, hframe, hiff hactions hrelease⟩

/-- A highlight can outlast the timeline. -/
theorem exists_highlight_at_end :
    ∃ production f, brightScript.produce Timing.usual plainSquare = .ok production ∧
      production.timeline.duration ≤ 2.8 ∧ production.timeline.frame 2.8 = .ok f ∧
      f.highlights ≠ OrderedMap.empty := by
  obtain ⟨production, -, f, hproduce, -, hframe, hend, -, hcolor⟩ := bright_at_end
  refine ⟨production, f, hproduce, hend, hframe, ?_⟩
  intro hempty
  rw [hempty] at hcolor
  cases hcolor

end Script

end Storyboard
