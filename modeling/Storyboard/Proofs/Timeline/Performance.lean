import Storyboard.Proofs.Timeline.Clock
import Storyboard.Proofs.Timeline.Course
import Storyboard.Proofs.Figure.LookUp

/-!
# Performances

The scenes of a script as they are produced one after the other, each with what it
was handed and what came of it.  A production is nothing but the list of its
performances, chained by what each one hands on.
-/

namespace Storyboard

variable {α : Type}

/-- A scene that has been produced, with what it was handed. -/
structure Performance (α : Type) where
  scene : Scene α
  start : α
  stage : Stage α
  registry : Registry α
  produced : Produced α

/-- The cues of a scene, up to the first step that has none. -/
def Scene.cues [Scalar α] (m : Model α) (s : Scene α) : List (Cue α) :=
  (untilError (s.timedSteps.map (Step.cue m s.id))).1

namespace Performance

/-- The segment of the timeline that a performance fills. -/
def segment (p : Performance α) : Segment α := p.produced.segment

/-- A performance hands on to another where it ends and what it leaves. -/
def HandsTo (p q : Performance α) : Prop :=
  q.start = p.segment.finish ∧ q.stage = p.produced.stage ∧
    q.registry = p.produced.registry

end Performance

namespace Script

variable [Analytic α]

/-- The performances of some scenes from a time on, up to the first scene that fails. -/
def performFrom (timing : Timing α) (fig : Figure α) (start : α) (stage : Stage α)
    (registry : Registry α) : List (Scene α) → List (Performance α)
  | [] => []
  | s :: rest =>
    match s.produce timing fig start stage registry with
    | .error _ => []
    | .ok produced =>
      ⟨s, start, stage, registry, produced⟩ ::
        performFrom timing fig produced.segment.finish produced.stage produced.registry rest

/-- The performances of a script, up to the first scene that fails. -/
def performances (timing : Timing α) (m : Model α) (s : Script α) :
    List (Performance α) :=
  match m.figure with
  | .error _ => []
  | .ok fig => performFrom timing fig 0 (Stage.initial m) OrderedMap.empty s.scenes

end Script

/-! ## One scene -/

theorem mem_of_mem_untilError {ε β : Type} {es : List (Except ε β)} {b : β}
    (h : b ∈ (untilError es).1) : .ok b ∈ es := by
  induction es with
  | nil => exact absurd h List.not_mem_nil
  | cons e rest ih =>
      cases e with
      | error e => exact absurd h List.not_mem_nil
      | ok b' =>
          rcases List.mem_cons.mp h with rfl | h
          · exact List.mem_cons_self
          · exact List.mem_cons_of_mem _ (ih h)

/-- There is no error in a list exactly if it is a list of results. -/
theorem untilError_eq_none_iff {ε β : Type} {es : List (Except ε β)} {bs : List β} :
    untilError es = (bs, none) ↔ es = bs.map .ok := by
  induction es generalizing bs with
  | nil => cases bs <;> simp [untilError]
  | cons e rest ih =>
      cases e with
      | error fault => cases bs <;> simp [untilError]
      | ok b =>
          cases bs with
          | nil => simp [untilError]
          | cons b' bs =>
              simp only [untilError, List.cons.injEq, List.map_cons,
                Except.ok.injEq, and_assoc, ← ih, Prod.ext_iff]

theorem Step.cue_eq_ok [Scalar α] {m : Model α} {scene : String} {e : TimedStep α}
    {cue : Cue α} (h : Step.cue m scene e = .ok cue) :
    cue.start = e.1 ∧ cue.duration = e.2.duration ∧
      e.2.effect m scene = .ok cue.effect := by
  unfold Step.cue at h
  cases heffect : e.2.effect m scene with
  | error fault =>
      rw [heffect] at h
      cases h
  | ok effect =>
      rw [heffect] at h
      cases h
      exact ⟨rfl, rfl, rfl⟩

namespace Scene

theorem exists_step_of_mem_cues [Scalar α] {m : Model α} {s : Scene α} {cue : Cue α}
    (h : cue ∈ s.cues m) :
    ∃ e ∈ s.timedSteps, cue.start = e.1 ∧ cue.duration = e.2.duration := by
  obtain ⟨e, he, hcue⟩ := List.mem_map.mp (mem_of_mem_untilError h)
  obtain ⟨hstart, hduration, -⟩ := Step.cue_eq_ok hcue
  exact ⟨e, he, hstart, hduration⟩

/-- The cues of a scene run from its start up to the end of its last action. -/
theorem cue_bounds [Scalar α] [TimeScalar α] {m : Model α} {s : Scene α} {cue : Cue α}
    (h : cue ∈ s.cues m) :
    0 ≤ cue.start ∧ 0 ≤ cue.duration ∧ cue.finish ≤ Action.endInTurn 0 s.actions := by
  obtain ⟨e, he, hstart, hduration⟩ := exists_step_of_mem_cues h
  obtain ⟨hlow, hhigh⟩ := Action.timedInTurn_bounds LawfulScalar.zero_le_zero s.actions e he
  rw [Cue.finish, hstart, hduration]
  exact ⟨hlow, e.2.duration_nonneg, hhigh⟩

theorem duration_nonneg_of_mem_cues [Scalar α] [TimeScalar α] {m : Model α} {s : Scene α} :
    ∀ cue ∈ s.cues m, 0 ≤ cue.duration :=
  fun _ hcue => (cue_bounds hcue).2.1

section Length

open LawfulScalar TimeScalar

variable [Scalar α] [TimeScalar α] {timing : Timing α}

theorem readingTime_nonneg (hfinite : Scalar.isFinite timing.charsPerSecond = true)
    (s : Scene α) : 0 ≤ s.readingTime timing := by
  unfold readingTime
  split_ifs with hpos
  · exact div_nonneg (natCast_nonneg _) hpos hfinite
  · exact zero_le_zero

/-- A scene is at least as long as its actions when the padding is not negative. -/
theorem endInTurn_le_length (hfinite : Scalar.isFinite timing.charsPerSecond = true)
    (hpadding : 0 ≤ timing.scenePadding) (s : Scene α) :
    Action.endInTurn 0 s.actions ≤ s.length timing := by
  have hreading := readingTime_nonneg hfinite s
  have hactions : 0 ≤ Action.endInTurn 0 s.actions := Action.le_endInTurn zero_le_zero s.actions
  exact le_trans (le_larger_right hreading hactions)
    (le_add (le_trans hreading (le_larger_left hreading _)) hpadding)

/-- With some padding every scene takes a while. -/
theorem length_pos (hfinite : Scalar.isFinite timing.charsPerSecond = true)
    (hpadding : 0 < timing.scenePadding) (s : Scene α) : 0 < s.length timing := by
  have hreading := readingTime_nonneg hfinite s
  exact Scalar.lt_of_lt_of_le hpadding
    (le_add_left (le_trans hreading (le_larger_left hreading _)) (lt_iff.mp hpadding).1)

end Length

/-- What a scene comes to, once it is produced. -/
theorem produce_eq_ok [Analytic α] {timing : Timing α} {fig : Figure α} {start : α}
    {stage : Stage α} {registry : Registry α} {s : Scene α} {produced : Produced α}
    (h : s.produce timing fig start stage registry = .ok produced) :
    untilError (s.timedSteps.map (Step.cue fig.model s.id)) = (s.cues fig.model, none) ∧
    produced.segment.start = start ∧
    produced.segment.finish = start + s.length timing ∧
    produced.segment.tracks = Track.ofWrites
      (stage.writes ++ (stage.follow (s.cues fig.model)).2 ++
        releaseWrites (s.length timing) timing.highlightRelease
          (heldHighlights (s.cues fig.model))) ∧
    produced.stage = (stage.follow (s.cues fig.model)).1 ∧
    produced.registry = registry.registerAll (s.cues fig.model) := by
  unfold produce at h
  cases hcamera : s.cameraKey fig stage registry with
  | error fault =>
      rw [hcamera] at h
      cases h
  | ok cameraKey =>
      rw [hcamera] at h
      rcases hcues : untilError (s.timedSteps.map (Step.cue fig.model s.id)) with
        ⟨cues, _ | fault⟩
      · have hlist : s.cues fig.model = cues := by rw [Scene.cues, hcues]
        rw [hlist]
        rw [hcues] at h
        cases h
        exact ⟨rfl, rfl, rfl, rfl, rfl, rfl⟩
      · rw [hcues] at h
        cases h

/-- No channel of a produced scene has two tracks. -/
theorem nodup_channels_of_produce [Analytic α] {timing : Timing α} {fig : Figure α} {start : α}
    {stage : Stage α} {registry : Registry α} {s : Scene α} {produced : Produced α}
    (h : s.produce timing fig start stage registry = .ok produced) :
    (produced.segment.tracks.map Track.channel).Nodup := by
  obtain ⟨-, -, -, htracks, -, -⟩ := produce_eq_ok h
  rw [htracks]
  exact Track.nodup_channels_ofWrites _

/-- The standard camera has a key, since it looks at the center of the figure. -/
theorem exists_cameraKey_eq_ok [Analytic α] {fig : Figure α} {stage : Stage α}
    {registry : Registry α} {s : Scene α} (hcamera : s.camera = Camera.standard)
    (hregistry : registry.get? centerId = none) :
    ∃ key, s.cameraKey fig stage registry = .ok key := by
  have hlookAt : lookAt fig stage registry centerId = .ok 0 := by
    rw [lookAt, hregistry]
    exact Figure.locate_center fig stage.setting
  unfold cameraKey
  rw [hcamera]
  change ∃ key, Except.map _ (lookAt fig stage registry centerId) = .ok key
  rw [hlookAt]
  exact ⟨_, rfl⟩

/-- A scene with the standard camera is produced as soon as all of its steps have cues. -/
theorem exists_produce_eq_ok [Analytic α] (timing : Timing α) {fig : Figure α} (start : α)
    (stage : Stage α) {registry : Registry α} {s : Scene α}
    (hcamera : s.camera = Camera.standard) (hregistry : registry.get? centerId = none)
    (hcues : (untilError (s.timedSteps.map (Step.cue fig.model s.id))).2 = none) :
    ∃ produced, s.produce timing fig start stage registry = .ok produced := by
  obtain ⟨key, hkey⟩ := @exists_cameraKey_eq_ok _ _ fig stage _ s hcamera hregistry
  unfold produce
  rw [hkey]
  simp only [hcues]
  exact ⟨_, rfl⟩

end Scene

/-! ## A whole script -/

namespace Script

variable [Analytic α]

/-- Each performance is the production of its scene from what it was handed. -/
theorem produce_of_mem_performFrom {timing : Timing α} {fig : Figure α} {start : α}
    {stage : Stage α} {registry : Registry α} {scenes : List (Scene α)}
    {p : Performance α}
    (h : p ∈ performFrom timing fig start stage registry scenes) :
    p.scene.produce timing fig p.start p.stage p.registry = .ok p.produced := by
  induction scenes generalizing start stage registry with
  | nil => exact absurd h List.not_mem_nil
  | cons s rest ih =>
      rw [performFrom] at h
      split at h
      next => exact absurd h List.not_mem_nil
      next produced hproduce =>
        rcases List.mem_cons.mp h with rfl | h
        · exact hproduce
        · exact ih h

theorem produce_of_mem_performances {timing : Timing α} {m : Model α} {s : Script α}
    {p : Performance α} (h : p ∈ s.performances timing m) :
    ∃ fig, fig.model = m ∧
      p.scene.produce timing fig p.start p.stage p.registry = .ok p.produced := by
  rw [performances] at h
  split at h
  next => exact absurd h List.not_mem_nil
  next fig hfig =>
    exact ⟨fig, Model.model_of_figure hfig, produce_of_mem_performFrom h⟩

theorem isChain_performFrom (timing : Timing α) (fig : Figure α) (start : α)
    (stage : Stage α) (registry : Registry α) (scenes : List (Scene α)) :
    (performFrom timing fig start stage registry scenes).IsChain Performance.HandsTo := by
  induction scenes generalizing start stage registry with
  | nil => exact List.isChain_nil
  | cons s rest ih =>
      rw [performFrom]
      split
      next => exact List.isChain_nil
      next produced _ =>
        have hrest := ih produced.segment.finish produced.stage produced.registry
        refine List.isChain_cons.mpr ⟨fun q hq => ?_, hrest⟩
        -- the next performance, if there is one, starts from what this one left
        cases rest with
        | nil => cases hq
        | cons s' rest =>
            rw [performFrom] at hq
            split at hq
            · cases hq
            · cases hq
              exact ⟨rfl, rfl, rfl⟩

/-- Each performance of a script is handed what the one before it leaves. -/
theorem isChain_performances (timing : Timing α) (m : Model α) (s : Script α) :
    (s.performances timing m).IsChain Performance.HandsTo := by
  rw [performances]
  split
  · exact List.isChain_nil
  · exact isChain_performFrom _ _ _ _ _ _

theorem segments_of_produceFrom {timing : Timing α} {fig : Figure α} {start : α}
    {stage : Stage α} {registry : Registry α} {scenes : List (Scene α)}
    {production : Production α}
    (h : produceFrom timing fig start stage registry scenes = .ok production) :
    (performFrom timing fig start stage registry scenes).map Performance.scene = scenes ∧
    production.timeline.segments =
      (performFrom timing fig start stage registry scenes).map Performance.segment := by
  induction scenes generalizing start stage registry production with
  | nil =>
      cases h
      exact ⟨rfl, rfl⟩
  | cons s rest ih =>
      rw [produceFrom] at h
      cases hproduce : s.produce timing fig start stage registry with
      | error halt =>
          rw [hproduce] at h
          cases h
      | ok produced =>
          simp only [hproduce] at h
          cases hrest : produceFrom timing fig produced.segment.finish produced.stage
              produced.registry rest with
          | error fault =>
              rw [hrest] at h
              cases h
          | ok rested =>
              rw [hrest] at h
              cases h
              obtain ⟨hscenes, hsegments⟩ := ih hrest
              rw [performFrom, hproduce]
              exact ⟨congrArg (s :: ·) hscenes, congrArg (produced.segment :: ·) hsegments⟩

/-- A script that is produced performs all of its scenes, and they fill its timeline. -/
theorem segments_of_produce {timing : Timing α} {m : Model α} {s : Script α}
    {production : Production α} (h : s.produce timing m = .ok production) :
    (s.performances timing m).map Performance.scene = s.scenes ∧
    production.timeline.segments =
      (s.performances timing m).map Performance.segment := by
  rw [produce] at h
  rw [performances]
  cases hfig : m.figure with
  | error fault =>
      rw [hfig] at h
      cases h
  | ok fig =>
      rw [hfig] at h
      exact segments_of_produceFrom h

theorem exists_figure_of_produce {timing : Timing α} {m : Model α} {s : Script α}
    {production : Production α} (h : s.produce timing m = .ok production) :
    ∃ fig, m.figure = .ok fig := by
  rw [produce] at h
  cases hfig : m.figure with
  | error fault =>
      rw [hfig] at h
      cases h
  | ok fig => exact ⟨fig, rfl⟩

theorem exists_performance_of_single (timing : Timing α) {m : Model α} {fig : Figure α}
    {s : Script α} {scene : Scene α} (hfig : m.figure = .ok fig)
    (hscenes : s.scenes = [scene])
    (hscene : ∃ produced, scene.produce timing fig 0 (Stage.initial m) OrderedMap.empty =
      .ok produced) :
    ∃ production produced, s.produce timing m = .ok production ∧
      ⟨scene, 0, Stage.initial m, OrderedMap.empty, produced⟩ ∈ s.performances timing m := by
  obtain ⟨produced, hproduced⟩ := hscene
  rw [produce, performances, hfig, hscenes]
  simp only [produceFrom, performFrom, hproduced]
  exact ⟨_, produced, rfl, List.mem_cons_self⟩

end Script

/-- A square on which nothing is declared. -/
def plainSquare {α : Type} : Model α := ⟨⟨.square, none, none⟩, [], [], [], []⟩

end Storyboard
