import Storyboard.Proofs.Number.DoubleTimes
import Storyboard.Proofs.Timeline.Keys

/-!
# Up to the onset of a channel

The onset of a channel in a scene is the first cue that touches it.  The value that
was handed stands in a keyframe at the start of the scene, and the next keyframe is
the earliest lead.  Nothing holds the value in between, so that a number is on the
way to the lead already before the onset.  It stays where it was only when the
lead is that very number.
-/

namespace Storyboard

open Track

/-- A cue that touches a channel, and no other cue that touches it starts earlier. -/
structure Cue.IsOnset {α : Type} [Scalar α] (first : Cue α) (c : Channel)
    (cues : List (Cue α)) : Prop where
  mem : first ∈ cues
  touches : first.touches c = true
  least : ∀ cue ∈ cues, cue.touches c = true → first.start ≤ cue.start

/-! ## Two keyframes without an easing -/

section Linear

variable {α : Type} [ExactScalar α]

theorem Easing.apply_linear {x : α} (h0 : 0 ≤ x) (h1 : x ≤ 1) : Easing.linear.apply x = x := by
  have hdefined : Scalar.isUndefined x = false := by simp [Scalar.isUndefined]
  simp only [Easing.apply, Scalar.confine, Scalar.clamp, hdefined]
  rw [if_neg Bool.false_ne_true, if_neg (not_lt.mpr h0), if_neg (not_lt.mpr h1)]

/-- Between two numbers without an easing the way is straight. -/
theorem Keyframe.between_number {a b u w t : α} (hspan : u < w) (hlow : u ≤ t)
    (hhigh : t ≤ w) :
    (Keyframe.number u a).between (Keyframe.number w b) t =
      .number (a + (b - a) * ((t - u) / (w - u))) := by
  have hpos : 0 < w - u := sub_pos.mpr hspan
  have hfraction : Easing.linear.apply ((t - u) / (w - u)) = (t - u) / (w - u) :=
    Easing.apply_linear (div_nonneg (sub_nonneg.mpr hlow) hpos.le)
      ((div_le_one hpos).mpr (sub_le_sub_right hhigh u))
  simp only [Keyframe.between, Keyframe.number, if_neg (not_le.mpr hpos), Option.or_none,
    Option.getD_none, hfraction, Scalar.interpolate]

end Linear

/-! ## The earliest lead -/

section Leads

variable {α : Type} [ExactScalar α] {c : Channel} {cues : List (Cue α)}

theorem head?_arrange_follow (hhighlight : c.property ≠ .highlight)
    (hvisibility : c.property ≠ .visibility)
    (hcues : ∀ cue ∈ cues, 0 ≤ cue.duration) (stage : Stage α) :
    (arrange (keysOf c (stage.follow cues).2)).head? =
      (earliestBy Prod.fst (stage.leadings c cues)).map fun lead =>
        Keyframe.number lead.1 lead.2 := by
  rw [head?_arrange, earliestBy, foldl_earlier_follow hhighlight hvisibility hcues]
  exact earliestBy_map Keyframe.time (fun lead : α × α => Keyframe.number lead.1 lead.2) _

theorem keysOf_follow_ne_nil {first : Cue α} (hc : c.property ≠ .highlight)
    (hcues : ∀ cue ∈ cues, 0 ≤ cue.duration) (honset : first.IsOnset c cues)
    (stage : Stage α) : keysOf c (stage.follow cues).2 ≠ [] := by
  intro hnil
  obtain ⟨mark, hmark⟩ := Option.isSome_iff_exists.mp honset.touches
  have hmem : mark ∈ leavings c cues := mem_leavings.mpr ⟨first, honset.mem, hmark⟩
  obtain ⟨latest, hlatest, -⟩ : ∃ latest, latestBy Prod.fst (leavings c cues) = some latest ∧
      latest ∈ leavings c cues := exists_mem_latestBy (List.ne_nil_of_mem hmem)
  have hfollow := foldl_later_follow hc hcues stage none
  rw [hnil] at hfollow
  change none = latestBy Prod.fst (leavings c cues) at hfollow
  rw [hlatest] at hfollow
  cases hfollow

/-- The earliest lead does not come before the onset. -/
theorem exists_earliest_lead {first : Cue α} (hhighlight : c.property ≠ .highlight)
    (hvisibility : c.property ≠ .visibility)
    (hcues : ∀ cue ∈ cues, 0 ≤ cue.duration) (honset : first.IsOnset c cues)
    (stage : Stage α) :
    ∃ lead, earliestBy Prod.fst (stage.leadings c cues) = some lead ∧
      first.start ≤ lead.1 ∧
      (arrange (keysOf c (stage.follow cues).2)).head? =
        some (Keyframe.number lead.1 lead.2) := by
  have hhead := head?_arrange_follow hhighlight hvisibility hcues stage
  cases hlead : earliestBy Prod.fst (stage.leadings c cues) with
  | none =>
      rw [hlead, Option.map_none, List.head?_eq_none_iff] at hhead
      obtain ⟨key, hkey⟩ := List.exists_mem_of_ne_nil _
        (keysOf_follow_ne_nil hhighlight hcues honset stage)
      rw [← mem_arrange, hhead] at hkey
      exact absurd hkey List.not_mem_nil
  | some lead =>
      rw [hlead] at hhead
      refine ⟨lead, rfl, ?_, hhead⟩
      have hmem := mem_arrange.mp (List.mem_of_head? hhead)
      obtain ⟨cue, hcue, htouches, hstart, -⟩ :=
        exists_touches_of_mem_follow hhighlight hcues hmem
      exact (honset.least cue hcue htouches).trans hstart

end Leads

/-! ## Before the onset -/

namespace Performance

variable {α : Type} [ExactAnalytic α] {timing : Timing α} {m : Model α}
  {s : Script α} {p : Performance α}

/-- Before the onset a number goes straight from what was handed to the earliest lead. -/
theorem sample?_of_lt_onset (h : p ∈ s.performances timing m) {c : Channel} {v : α}
    (hv : p.stage.value? c = some (.number v)) {first : Cue α}
    (honset : first.IsOnset c (p.scene.cues m)) :
    ∃ lead, earliestBy Prod.fst (p.stage.leadings c (p.scene.cues m)) = some lead ∧
      first.start ≤ lead.1 ∧
      ∀ t, 0 ≤ t → t < first.start →
        p.segment.sample? c t = some (.number (v + (lead.2 - v) * (t / lead.1))) := by
  have hhighlight : c.property ≠ .highlight := Stage.property_ne_highlight hv
  have hvisibility : c.property ≠ .visibility := Stage.property_ne_visibility hv
  have hdurations : ∀ cue ∈ p.scene.cues m, 0 ≤ cue.duration :=
    Scene.duration_nonneg_of_mem_cues
  obtain ⟨lead, hlead, hstart, hhead⟩ :=
    exists_earliest_lead hhighlight hvisibility hdurations honset p.stage
  refine ⟨lead, hlead, hstart, fun t h0 ht => ?_⟩
  obtain ⟨ws, htracks, hkeys⟩ := tracks_eq h
  -- every keyframe of a cue lies behind the onset, hence behind `t`
  have hbehind : ∀ k ∈ keysOf c (p.stage.follow (p.scene.cues m)).2, first.start ≤ k.time := by
    intro k hk
    obtain ⟨cue, hcue, htouches, hle, -⟩ :=
      exists_touches_of_mem_follow hhighlight hdurations hk
    exact (honset.least cue hcue htouches).trans hle
  have hpos : 0 < first.start := h0.trans_lt ht
  have hfront : ∀ k ∈ [(Keyframe.number 0 v : Keyframe α)], k.time ≤ t := by
    intro k hk
    rw [List.mem_singleton.mp hk]
    exact h0
  have hrest : ∀ k ∈ arrange (keysOf c (p.stage.follow (p.scene.cues m)).2), ¬ k.time ≤ t :=
    fun k hk => not_le.mpr (ht.trans_le (hbehind k (mem_arrange.mp hk)))
  have harrange : arrange (keysOf c ws) =
      [Keyframe.number 0 v] ++ arrange (keysOf c (p.stage.follow (p.scene.cues m)).2) := by
    rw [hkeys c hhighlight, hv]
    exact arrange_cons fun k hk => hpos.le.trans (hbehind k hk)
  rw [sample?_of_tracks htracks, harrange, Keyframe.valueAt?_append hfront hrest, hhead]
  change some ((Keyframe.number 0 v).between (Keyframe.number lead.1 lead.2) t) = _
  rw [Keyframe.between_number (hpos.trans_le hstart) h0 (ht.le.trans hstart), sub_zero,
    sub_zero]

/-- A number stays where it was up to the onset exactly when the earliest lead is that number. -/
theorem forall_sample?_eq_iff (h : p ∈ s.performances timing m) {c : Channel} {v : α}
    (hv : p.stage.value? c = some (.number v)) {first : Cue α}
    (honset : first.IsOnset c (p.scene.cues m)) :
    (∀ t, 0 ≤ t → t < first.start → p.segment.sample? c t = some (.number v)) ↔
      first.start = 0 ∨
        (earliestBy Prod.fst (p.stage.leadings c (p.scene.cues m))).map Prod.snd = some v := by
  obtain ⟨lead, hlead, hstart, hsample⟩ := sample?_of_lt_onset h hv honset
  rw [hlead, Option.map_some, Option.some_inj]
  constructor
  · intro hstays
    rcases (Scene.cue_bounds honset.mem).1.eq_or_lt with hzero | hpos
    · exact Or.inl hzero.symm
    · -- half way to the onset the number has gone a part of the way to the lead
      have hhalf : 0 < first.start / 2 := half_pos hpos
      have hlt : first.start / 2 < first.start := half_lt_self hpos
      have hsame := hsample _ hhalf.le hlt
      rw [hstays _ hhalf.le hlt] at hsame
      have hmove : (lead.2 - v) * (first.start / 2 / lead.1) = 0 := by
        simpa using hsame
      rcases mul_eq_zero.mp hmove with hzero | hzero
      · exact Or.inr (sub_eq_zero.mp hzero)
      · exact absurd hzero (div_pos hhalf (hpos.trans_le hstart)).ne'
  · rintro (hzero | rfl) t h0 ht
    · exact absurd (ht.trans_eq hzero) (not_lt.mpr h0)
    · rw [hsample t h0 ht, sub_self, zero_mul, add_zero]

end Performance

/--
In every segment of a produced script a number that was handed on stays where it was
up to the onset of its channel exactly when the earliest lead on the channel is that
number, or when there is no time before the onset.
-/
theorem Script.number_stays_until_onset_iff {α : Type} [ExactAnalytic α] {m : Model α}
    {s : Script α} {production : Production α}
    (h : s.produce Timing.usual m = .ok production) :
    production.timeline.segments =
      (s.performances Timing.usual m).map Performance.segment ∧
    ∀ p ∈ s.performances Timing.usual m, ∀ (c : Channel) (v : α) (first : Cue α),
      p.stage.value? c = some (.number v) → first.IsOnset c (p.scene.cues m) →
      ((∀ t, 0 ≤ t → t < first.start → p.segment.sample? c t = some (.number v)) ↔
        first.start = 0 ∨
          (earliestBy Prod.fst (p.stage.leadings c (p.scene.cues m))).map Prod.snd =
            some v) := by
  refine ⟨(Script.segments_of_produce h).2, ?_⟩
  intro p hp c v first hv honset
  exact Performance.forall_sample?_eq_iff hp hv honset

/-- A square with one fold along a diagonal, which is half a turn open at first. -/
def hingedSquare {α : Type} : Model α where
  solid := ⟨.square, none, none⟩
  points := []
  folds := [⟨"hinge", ("B", "D"), ["C"], ["E"], none, none⟩]
  measurements := []
  parameters := []

/-- A scene that waits for a second before it folds the square. -/
def waitingScene {α : Type} [Scalar α] : Scene α where
  id := "waiting"
  narration := ""
  camera := Camera.standard
  actions := [.step (.wait 1.0), .step (.fold "hinge" none none none)]
  measurements := none

/-- A script of a fold that waits and nothing else. -/
def waitingScript {α : Type} [Scalar α] : Script α := ⟨"", [waitingScene]⟩

theorem exists_performance_waitingScript (α : Type) [Analytic α] :
    ∃ production produced,
      waitingScript.produce Timing.usual (hingedSquare : Model α) = .ok production ∧
      ⟨waitingScene, 0, Stage.initial hingedSquare, OrderedMap.empty, produced⟩ ∈
        waitingScript.performances Timing.usual (hingedSquare : Model α) :=
  Script.exists_performance_of_single Timing.usual rfl rfl
    (Scene.exists_produce_eq_ok Timing.usual 0 _ rfl rfl rfl)

theorem angle_hingedSquare {α : Type} [Scalar α] :
    (Stage.initial (hingedSquare : Model α)).value? ⟨.angle, "hinge"⟩ =
      some (.number 180.0) := rfl

/-- The cue of the fold in the scene that waits. -/
def waitingFold {α : Type} [Scalar α] : Cue α :=
  ⟨0 + Scalar.nonNegative 1.0, Scalar.nonNegative 2.0, .fold "hinge" 0 180.0⟩

theorem isOnset_waitingFold {α : Type} [Scalar α] [TimeScalar α] :
    waitingFold.IsOnset ⟨.angle, "hinge"⟩ (waitingScene.cues (hingedSquare : Model α)) where
  mem := List.mem_cons_of_mem _ List.mem_cons_self
  touches := rfl
  least := by
    intro cue hcue htouches
    have hcues : waitingScene.cues (hingedSquare : Model α) =
        [⟨0, Scalar.nonNegative 1.0, .rest⟩, waitingFold] := rfl
    rw [hcues, List.mem_cons, List.mem_singleton] at hcue
    rcases hcue with rfl | rfl
    · cases htouches
    · have hstart : 0 ≤ (waitingFold : Cue α).start :=
        TimeScalar.add_nonneg LawfulScalar.zero_le_zero (Scalar.zero_le_nonNegative 1.0)
      exact LawfulScalar.right_defined hstart

theorem Script.number_stays_until_onset_iff_waiting :
    ∃ production, waitingScript.produce Timing.usual (hingedSquare : Model ℝ) =
      .ok production ∧
    ∃ p ∈ waitingScript.performances Timing.usual (hingedSquare : Model ℝ),
      (∀ t, 0 ≤ t → t < (waitingFold : Cue ℝ).start →
        p.segment.sample? ⟨.angle, "hinge"⟩ t = some (.number 180.0)) ↔
      (waitingFold : Cue ℝ).start = 0 ∨ (some 0 : Option ℝ) = some 180.0 := by
  obtain ⟨production, produced, h, hp⟩ := exists_performance_waitingScript ℝ
  exact ⟨production, h, _, hp,
    (Script.number_stays_until_onset_iff h).2 _ hp ⟨.angle, "hinge"⟩ 180.0 waitingFold
      angle_hingedSquare isOnset_waitingFold⟩

/--
While the scene waits the square, half a turn open, already closes half way.  It does so
with exact numbers and in double precision.
-/
theorem Script.exists_drift_before_onset :
    (∃ production, waitingScript.produce Timing.usual (hingedSquare : Model ℝ) =
      .ok production ∧
    ∃ p ∈ waitingScript.performances Timing.usual (hingedSquare : Model ℝ),
      p.stage.value? ⟨.angle, "hinge"⟩ = some (.number 180.0) ∧
      waitingFold.IsOnset ⟨.angle, "hinge"⟩ (p.scene.cues hingedSquare) ∧
      0 < (waitingFold : Cue ℝ).start ∧
      p.segment.sample? ⟨.angle, "hinge"⟩ ((waitingFold : Cue ℝ).start / 2) =
        some (.number (180.0 / 2))) ∧
    ∃ production, waitingScript.produce Timing.usual (hingedSquare : Model Float) =
      .ok production ∧
    ∃ p ∈ waitingScript.performances Timing.usual (hingedSquare : Model Float),
      p.stage.value? ⟨.angle, "hinge"⟩ = some (.number 180.0) ∧
      waitingFold.IsOnset ⟨.angle, "hinge"⟩ (p.scene.cues hingedSquare) ∧
      (waitingFold : Cue Float).start = 1.0 ∧
      p.segment.sample? ⟨.angle, "hinge"⟩ 0.5 = some (.number 90.0) := by
  constructor
  · obtain ⟨production, produced, h, hp⟩ := exists_performance_waitingScript ℝ
    have hstart : 0 < (waitingFold : Cue ℝ).start := by
      rw [waitingFold, zero_add, ExactScalar.nonNegative_eq_max, ExactScalar.literal_eq]
      norm_num
    refine ⟨production, h, _, hp, angle_hingedSquare, isOnset_waitingFold, hstart, ?_⟩
    obtain ⟨lead, hlead, -, hsample⟩ :=
      Performance.sample?_of_lt_onset hp angle_hingedSquare isOnset_waitingFold
    obtain rfl : ((waitingFold : Cue ℝ).start, (0 : ℝ)) = lead := Option.some_inj.mp hlead
    rw [hsample _ (half_pos hstart).le (half_lt_self hstart)]
    congr 2
    field_simp
    norm_num
  · obtain ⟨production, produced, h, hp⟩ := exists_performance_waitingScript Float
    have hstart : (waitingFold : Cue Float).start = 1.0 := by decide +kernel
    have hsample : ∀ p ∈ waitingScript.performances Timing.usual (hingedSquare : Model Float),
        p.segment.sample? ⟨.angle, "hinge"⟩ 0.5 = some (.number 90.0) := by decide +kernel
    exact ⟨production, h, _, hp, angle_hingedSquare, isOnset_waitingFold, hstart, hsample _ hp⟩

end Storyboard
