import Storyboard.Proofs.Timeline.Highlights

/-!
# After the last pulse

A pulse clears what it lights when it ends.  Once the last pulse of a target is over and
nothing else that lights the target overlaps it, the target stays dark up to the release
of the scene.  There every color that a highlight of the scene has set is keyed again,
whatever has become of it since, so that a target that was highlighted before it pulsed
is lit once more until the scene is over.
-/

namespace Storyboard

open Track

/-! ## The last pulse of a target -/

/-- Whether an effect writes to the highlight of a target. -/
def Effect.Lights {α : Type} (id : String) : Effect α → Prop
  | .highlight target _ | .pulse target _ _ => target = id
  | .reveal _ | .hide _ | .fadeIn _ | .fadeOut _ | .create _ | .drive .. | .fold .. | .rest =>
    False

/--
A pulse of a target, such that of all other cues that light the target none starts after
it and none overlaps it.
-/
structure Cue.IsLastPulse {α : Type} [Scalar α] (pulse : Cue α) (id : String)
    (cues : List (Cue α)) : Prop where
  pulses : ∃ color repetitions, pulse.effect = .pulse id color repetitions
  alone : ∃ front back, cues = front ++ pulse :: back ∧
    ∀ cue ∈ front ++ back, cue.effect.Lights id →
      cue.start ≤ pulse.start ∧ ¬ (cue.start < pulse.finish ∧ pulse.start < cue.finish)

theorem Cue.IsLastPulse.mem {α : Type} [Scalar α] {pulse : Cue α} {id : String}
    {cues : List (Cue α)} (h : pulse.IsLastPulse id cues) : pulse ∈ cues := by
  obtain ⟨-, front, back, hcues, -⟩ := h
  rw [hcues]
  exact List.mem_append_right _ List.mem_cons_self

section Glow

variable {α : Type} [Scalar α] {cue : Cue α} {id : String}

theorem Cue.glow_of_not_lights (h : ¬ cue.effect.Lights id) : cue.glow id = [] := by
  unfold glow
  cases heffect : cue.effect with
  | highlight target color | pulse target color repetitions =>
      rw [heffect] at h
      exact if_neg h
  | reveal | hide | fadeIn | fadeOut | create | drive | fold | rest => rfl

/-- A step that lights a target takes a second, or as long as all pulses do. -/
theorem Step.duration_of_lights {m : Model α} {scene : String} {s : Step α} {e : Effect α}
    (h : s.effect m scene = .ok e) (hlights : e.Lights id) :
    s.duration = 1.0 ∨ s.duration = 1.5 := by
  cases s with
  | highlight target color => exact Or.inl rfl
  | pulse target color times => exact Or.inr rfl
  | create name color shape =>
      rw [effect] at h
      cases helement : element scene name color shape with
      | error fault =>
          rw [helement] at h
          cases h
      | ok found =>
          rw [helement] at h
          cases h
          exact hlights.elim
  | animatePoint target start finish duration =>
      rw [effect] at h
      split at h
      · cases h
        exact hlights.elim
      · cases h
  | reveal | hide | fadeIn | fadeOut | fold | wait | unread =>
      cases h
      exact hlights.elim

end Glow

section Exact

variable {α : Type} [ExactScalar α] {id : String}

theorem Scene.duration_pos_of_lights {m : Model α} {s : Scene α} {cue : Cue α}
    (h : cue ∈ s.cues m) (hlights : cue.effect.Lights id) : 0 < cue.duration := by
  obtain ⟨e, -, hcue⟩ := List.mem_map.mp (mem_of_mem_untilError h)
  obtain ⟨-, hduration, heffect⟩ := Step.cue_eq_ok hcue
  rw [hduration]
  rcases Step.duration_of_lights heffect hlights with h | h
  · rw [h, ExactScalar.literal_eq]
    norm_num
  · rw [h, ExactScalar.literal_eq]
    norm_num

/-- Of what the cues write to a target, the end of its last pulse comes last. -/
theorem Scene.glow_of_isLastPulse {m : Model α} {s : Scene α} {pulse : Cue α}
    (h : pulse.IsLastPulse id (s.cues m)) :
    ∃ keys, (s.cues m).flatMap (Cue.glow id) = keys ++ [.clear pulse.finish] ∧
      ∀ k ∈ keys, k.time ≤ pulse.finish := by
  have hin : pulse ∈ s.cues m := h.mem
  obtain ⟨⟨color, repetitions, heffect⟩, front, back, hcues, halone⟩ := h
  have hmem : ∀ cue ∈ front ++ back, cue ∈ s.cues m := by
    intro cue hcue
    rw [hcues]
    exact List.mem_append.mpr ((List.mem_append.mp hcue).imp_right (List.mem_cons_of_mem _))
  have hlights : pulse.effect.Lights id := by
    rw [heffect]
    rfl
  have hpulse : pulse.start < pulse.finish :=
    lt_add_of_pos_right _ (Scene.duration_pos_of_lights hin hlights)
  have hbefore : ∀ cue ∈ front ++ back, cue.effect.Lights id → cue.finish ≤ pulse.start := by
    intro cue hcue hlight
    obtain ⟨hstart, hoverlap⟩ := halone cue hcue hlight
    exact not_lt.mp fun hlt => hoverlap ⟨hstart.trans_lt hpulse, hlt⟩
  have htimes : ∀ cue ∈ s.cues m, ∀ k ∈ cue.glow id, k.time ≤ cue.finish := by
    intro cue hcue k hk
    obtain ⟨hstart, hduration, -⟩ := Scene.cue_bounds hcue
    exact Cue.time_le_of_mem_glow (Scene.isRegular_of_mem_cues hcue) hstart hduration hk
  -- what comes behind the pulse starts no earlier, so that it does not light the target
  have hback : back.flatMap (Cue.glow id) = [] := by
    refine List.flatMap_eq_nil_iff.mpr fun cue hcue => Cue.glow_of_not_lights fun hlight => ?_
    have horder := s.pairwise_cues m
    rw [hcues] at horder
    have hstart : pulse.start ≤ cue.start :=
      (List.pairwise_cons.mp (List.pairwise_append.mp horder).2.1).1 cue hcue
    have hduration : 0 < cue.duration :=
      Scene.duration_pos_of_lights (hmem cue (List.mem_append_right _ hcue)) hlight
    have hfinish : cue.start + cue.duration ≤ pulse.start :=
      hbefore cue (List.mem_append_right _ hcue) hlight
    linarith
  obtain ⟨keys, hkeys⟩ : ∃ keys, pulse.glow id = keys ++ [.clear pulse.finish] := by
    unfold Cue.glow
    rw [heffect]
    dsimp only
    rw [if_pos rfl]
    exact ⟨_, rfl⟩
  refine ⟨front.flatMap (Cue.glow id) ++ keys, ?_, ?_⟩
  · rw [hcues, List.flatMap_append, List.flatMap_cons, hback, List.append_nil, hkeys,
      List.append_assoc]
  · intro k hk
    rcases List.mem_append.mp hk with hk | hk
    · obtain ⟨cue, hcue, hk⟩ := List.mem_flatMap.mp hk
      have hlight : cue.effect.Lights id := by
        by_contra hdark
        rw [Cue.glow_of_not_lights hdark] at hk
        exact List.not_mem_nil hk
      calc
        k.time ≤ cue.finish := htimes cue (hmem cue (List.mem_append_left _ hcue)) k hk
        _ ≤ pulse.start := hbefore cue (List.mem_append_left _ hcue) hlight
        _ ≤ pulse.finish := hpulse.le
    · refine htimes pulse hin k ?_
      rw [hkeys]
      exact List.mem_append_left _ hk

/-! ## The release with the usual timing -/

theorem Timing.isRegular_usual_of_exact : (Timing.usual : Timing α).IsRegular where
  charsPerSecond := ExactScalar.isFinite _
  scenePadding := by
    change (0 : α) < 0.5
    rw [ExactScalar.literal_eq]
    norm_num
  highlightRelease := ExactScalar.literal_nonneg _ _ _
  finiteRelease := ExactScalar.isFinite _

theorem Scene.releaseTime_eq (s : Scene α) :
    s.releaseTime Timing.usual = s.length Timing.usual - 3 / 10 ∧
      s.actionsEnd < s.releaseTime Timing.usual := by
  have hactions : 0 ≤ s.actionsEnd := Action.le_endInTurn le_rfl s.actions
  have hrelease : (Timing.usual : Timing α).highlightRelease = 3 / 10 := by
    change (0.3 : α) = 3 / 10
    rw [ExactScalar.literal_eq]
    norm_num
  have hlength : s.actionsEnd + 1 / 2 ≤ s.length Timing.usual := by
    have hpadding : (Timing.usual : Timing α).scenePadding = 1 / 2 := by
      change (0.5 : α) = 1 / 2
      rw [ExactScalar.literal_eq]
      norm_num
    rw [length, hpadding, ExactScalar.larger_eq_max]
    exact add_le_add_left (le_max_right _ _) _
  have heq : s.releaseTime Timing.usual = s.length Timing.usual - 3 / 10 := by
    rw [releaseTime, ExactScalar.nonNegative_eq_max, hrelease]
    exact max_eq_right (by linarith)
  refine ⟨heq, ?_⟩
  rw [heq]
  linarith

end Exact

/-! ## The highlights behind a pulse -/

namespace Performance

variable {α : Type} [ExactAnalytic α] {m : Model α} {s : Script α} {p : Performance α}
  {id : String} {pulse : Cue α}

/-- Between the last pulse of a target and the release its highlight is clear. -/
theorem highlight_of_lt_releaseTime (h : p ∈ s.performances Timing.usual m)
    (hpulse : pulse.IsLastPulse id (p.scene.cues m)) {t : α} (ht : pulse.finish ≤ t)
    (hrelease : t < p.scene.releaseTime Timing.usual) :
    (p.segment.sample? ⟨.highlight, id⟩ t).bind (Channel.update ⟨.highlight, id⟩ none) = none := by
  obtain ⟨keys, hglow, hkeys⟩ := Scene.glow_of_isLastPulse hpulse
  cases hheld : (heldHighlights (p.scene.cues m)).get? id with
  | none =>
      rw [sample?_highlight h, hheld, Option.toList_none, List.flatMap_nil, List.append_nil,
        hglow, Keyframe.valueAt?_concat hkeys ht]
      rfl
  | some color =>
      obtain ⟨hsample, -⟩ := sample?_held Timing.isRegular_usual_of_exact h hheld t
      have hcolor : ∀ k ∈ (p.scene.cues m).flatMap (Cue.glow id),
          k.time ≤ (Keyframe.color (p.scene.releaseTime Timing.usual) color).time :=
        fun k hk => (time_le_of_mem_glow hk).trans p.scene.releaseTime_eq.2.le
      have hdue : ∀ k ∈ arrange keys ++ [Keyframe.clear pulse.finish], k.time ≤ t :=
        List.forall_mem_append.mpr
          ⟨fun k hk => (hkeys k (mem_arrange.mp hk)).trans ht,
            List.forall_mem_singleton.mpr ht⟩
      have hlength : t < p.scene.length Timing.usual :=
        hrelease.trans_le (p.scene.releaseTime_le_length Timing.isRegular_usual_of_exact)
      have hlater : ∀ k ∈ [Keyframe.color (p.scene.releaseTime Timing.usual) color] ++
          [Keyframe.clear (p.scene.length Timing.usual)], ¬ k.time ≤ t :=
        List.forall_mem_append.mpr
          ⟨List.forall_mem_singleton.mpr (not_le.mpr hrelease),
            List.forall_mem_singleton.mpr (not_le.mpr hlength)⟩
      rw [hsample, arrange_concat hcolor, hglow, arrange_concat hkeys, List.append_assoc,
        Keyframe.valueAt?_append hdue hlater, List.getLast?_concat]
      rfl

/--
Once the last pulse of a target is over, the target is lit only from the release of the
scene to its end, and in the color that the scene holds.
-/
theorem get?_highlights_after_pulse (h : p ∈ s.performances Timing.usual m)
    (hpulse : pulse.IsLastPulse id (p.scene.cues m)) {t : α} (ht : pulse.finish ≤ t)
    (globalTime : α) :
    (p.segment.frame globalTime t).highlights.get? id =
      if p.scene.releaseTime Timing.usual ≤ t ∧ t < p.segment.duration then
        (heldHighlights (p.scene.cues m)).get? id
      else none := by
  apply Option.map_injective KeyValue.color_injective
  rw [Script.highlights_frame h, duration_eq h]
  by_cases hrelease : p.scene.releaseTime Timing.usual ≤ t
  · by_cases hend : t < p.scene.length Timing.usual
    · rw [if_pos ⟨hrelease, hend⟩]
      exact highlight_of_releaseTime_le Timing.isRegular_usual_of_exact h id
        p.scene.releaseTime_eq.2.le hrelease (not_le.mpr hend)
    · rw [if_neg fun hlit => hend hlit.2]
      exact highlight_of_length_le Timing.isRegular_usual_of_exact h id (not_lt.mp hend)
  · rw [if_neg fun hlit => hrelease hlit.1]
    exact highlight_of_lt_releaseTime h hpulse ht (not_le.mp hrelease)

/-- A pulse is over before the release of its scene, and that is before the end. -/
theorem finish_lt_releaseTime (h : p ∈ s.performances Timing.usual m)
    (hpulse : pulse.IsLastPulse id (p.scene.cues m)) :
    pulse.finish < p.scene.releaseTime Timing.usual ∧
      p.scene.releaseTime Timing.usual < p.segment.duration := by
  obtain ⟨hrelease, hactions⟩ := p.scene.releaseTime_eq
  refine ⟨(Scene.cue_bounds hpulse.mem).2.2.trans_lt hactions, ?_⟩
  rw [duration_eq h, hrelease]
  linarith

end Performance

theorem get?_heldHighlights_eq_none_iff {α : Type} {cues : List (Cue α)} {id : String} :
    (heldHighlights cues).get? id = none ↔
      ∀ cue ∈ cues, ∀ color, cue.effect ≠ .highlight id color := by
  refine ⟨effect_ne_of_get?_heldHighlights, fun h => ?_⟩
  rw [get?_heldHighlights, List.getLast?_eq_none_iff, List.filterMap_eq_nil_iff]
  intro cue hcue
  unfold Effect.highlightOf?
  split
  next target color heffect =>
    refine if_neg ?_
    rintro rfl
    exact h cue hcue color heffect
  next => rfl

/--
In every segment of a produced script, from the end of the last pulse of a target on, the
target is lit exactly from the release to the end of the scene, in the color of the last
highlight of the scene, if there is one.  So it stays dark up to the end of the scene
exactly when no highlight of the scene is of that target.
-/
theorem Script.stays_dark_after_pulse_iff {α : Type} [ExactAnalytic α] {m : Model α}
    {s : Script α} {production : Production α}
    (h : s.produce Timing.usual m = .ok production) :
    production.timeline.segments =
      (s.performances Timing.usual m).map Performance.segment ∧
    ∀ p ∈ s.performances Timing.usual m, ∀ (id : String) (pulse : Cue α),
      pulse.IsLastPulse id (p.scene.cues m) →
      (∀ t, pulse.finish ≤ t → t ≤ p.segment.duration →
        (p.segment.frame (p.segment.start + t) t).highlights.get? id =
          if p.scene.releaseTime Timing.usual ≤ t ∧ t < p.segment.duration then
            (heldHighlights (p.scene.cues m)).get? id
          else none) ∧
      ((∀ t, pulse.finish ≤ t → t ≤ p.segment.duration →
          (p.segment.frame (p.segment.start + t) t).highlights.get? id = none) ↔
        ∀ cue ∈ p.scene.cues m, ∀ color, cue.effect ≠ .highlight id color) := by
  refine ⟨(Script.segments_of_produce h).2, ?_⟩
  intro p hp id pulse hpulse
  have hlit : ∀ t, pulse.finish ≤ t →
      (p.segment.frame (p.segment.start + t) t).highlights.get? id =
        if p.scene.releaseTime Timing.usual ≤ t ∧ t < p.segment.duration then
          (heldHighlights (p.scene.cues m)).get? id
        else none :=
    fun t ht => Performance.get?_highlights_after_pulse hp hpulse ht _
  refine ⟨fun t ht _ => hlit t ht, ?_⟩
  rw [← get?_heldHighlights_eq_none_iff]
  constructor
  · intro hdark
    obtain ⟨hover, hend⟩ := Performance.finish_lt_releaseTime hp hpulse
    have hrelease := hlit _ hover.le
    rw [if_pos ⟨le_rfl, hend⟩] at hrelease
    rw [← hrelease]
    exact hdark _ hover.le hend.le
  · intro hheld t ht _
    rw [hlit t ht, hheld, ite_self]

/-! ## A target that is highlighted before it pulses -/

/-- A scene that highlights a corner and then lets it pulse. -/
def pulsingScene {α : Type} [Scalar α] : Scene α where
  id := "pulsing"
  narration := ""
  camera := Camera.standard
  actions := [.step (.highlight "A" none), .step (.pulse "A" none none)]
  measurements := none

/-- A script of a corner that is highlighted and pulses. -/
def pulsingScript {α : Type} [Scalar α] : Script α := ⟨"", [pulsingScene]⟩

theorem exists_performance_pulsingScript :
    ∃ production produced,
      pulsingScript.produce Timing.usual (plainSquare : Model ℝ) = .ok production ∧
      ⟨pulsingScene, 0, Stage.initial plainSquare, OrderedMap.empty, produced⟩ ∈
        pulsingScript.performances Timing.usual (plainSquare : Model ℝ) :=
  Script.exists_performance_of_single Timing.usual rfl rfl
    (Scene.exists_produce_eq_ok Timing.usual 0 _ rfl rfl rfl)

/-- The cue of the pulse in the scene. -/
noncomputable def cornerPulse : Cue ℝ := ⟨0 + 1.0, 1.5, .pulse "A" highlightColor 1⟩

theorem cues_pulsingScene : pulsingScene.cues (plainSquare : Model ℝ) =
    [⟨0, 1.0, .highlight "A" highlightColor⟩, cornerPulse] := rfl

theorem isLastPulse_cornerPulse :
    cornerPulse.IsLastPulse "A" (pulsingScene.cues (plainSquare : Model ℝ)) where
  pulses := ⟨highlightColor, 1, rfl⟩
  alone := by
    refine ⟨[⟨0, 1.0, .highlight "A" highlightColor⟩], [], cues_pulsingScene, ?_⟩
    intro cue hcue _
    rw [List.append_nil, List.mem_singleton] at hcue
    subst hcue
    have hsecond : (0 : ℝ) ≤ 1.0 := ExactScalar.literal_nonneg _ _ _
    refine ⟨?_, fun hoverlap => lt_irrefl _ hoverlap.2⟩
    change 0 ≤ 0 + 1.0
    linarith

theorem get?_heldHighlights_pulsingScene :
    (heldHighlights (pulsingScene.cues (plainSquare : Model ℝ))).get? "A" =
      some highlightColor := rfl

theorem Script.stays_dark_after_pulse_iff_pulsing :
    ∃ production, pulsingScript.produce Timing.usual (plainSquare : Model ℝ) =
      .ok production ∧
    ∃ p ∈ pulsingScript.performances Timing.usual (plainSquare : Model ℝ),
      ((∀ t, cornerPulse.finish ≤ t → t ≤ p.segment.duration →
          (p.segment.frame (p.segment.start + t) t).highlights.get? "A" = none) ↔
        ∀ cue ∈ p.scene.cues plainSquare, ∀ color, cue.effect ≠ .highlight "A" color) := by
  obtain ⟨production, produced, h, hp⟩ := exists_performance_pulsingScript
  exact ⟨production, h, _, hp,
    ((Script.stays_dark_after_pulse_iff h).2 _ hp "A" cornerPulse
      isLastPulse_cornerPulse).2⟩

/-- From the release on the corner is lit again, although its last pulse is over. -/
theorem Script.exists_highlight_after_pulse :
    ∃ production, pulsingScript.produce Timing.usual (plainSquare : Model ℝ) =
      .ok production ∧
    ∃ p ∈ pulsingScript.performances Timing.usual (plainSquare : Model ℝ),
      cornerPulse.IsLastPulse "A" (p.scene.cues plainSquare) ∧
      ∃ t, cornerPulse.finish ≤ t ∧ t ≤ p.segment.duration ∧
        (p.segment.frame (p.segment.start + t) t).highlights.get? "A" =
          some highlightColor := by
  obtain ⟨production, produced, h, hp⟩ := exists_performance_pulsingScript
  obtain ⟨hover, hend⟩ := Performance.finish_lt_releaseTime hp isLastPulse_cornerPulse
  refine ⟨production, h, _, hp, isLastPulse_cornerPulse, _, hover.le, hend.le, ?_⟩
  rw [Performance.get?_highlights_after_pulse hp isLastPulse_cornerPulse hover.le,
    if_pos ⟨le_rfl, hend⟩]
  exact get?_heldHighlights_pulsingScene

end Storyboard
