import Storyboard.Proofs.Timeline.Performance
import Storyboard.Proofs.Review.Paths

/-!
# The estimated and the produced length of a scene

A review adds up the durations of the actions of a scene without playing any of them.
A production gives every step a cue with a start of its own.  Both come to the same:
an action starts when as much time has passed as the actions before it take, all in a
group starts with the group, and the last cue has ended after the time that the review
estimates.  That holds inside of groups at every depth, since the last cue of a group ends
with its longest member.
-/

namespace Storyboard

/-! ## When the last one has ended -/

section Ends

variable {α : Type} [Scalar α]

/-- When the last of some timed steps has ended, and not before `least`. -/
def lastEnd (least : α) (steps : List (TimedStep α)) : α :=
  steps.foldl (fun time e => Scalar.larger time (e.1 + e.2.duration)) least

/-- When the last of some cues has ended, and not before `least`. -/
def lastFinish (least : α) (cues : List (Cue α)) : α :=
  cues.foldl (fun time cue => Scalar.larger time cue.finish) least

theorem lastEnd_append (least : α) (front back : List (TimedStep α)) :
    lastEnd least (front ++ back) = lastEnd (lastEnd least front) back :=
  List.foldl_append

/-- The cues of some steps end when the steps do. -/
theorem lastFinish_eq_lastEnd {m : Model α} {scene : String} {steps : List (TimedStep α)}
    {cues : List (Cue α)} (h : steps.map (Step.cue m scene) = cues.map .ok) (least : α) :
    lastFinish least cues = lastEnd least steps := by
  induction steps generalizing cues least with
  | nil =>
      obtain rfl : cues = [] := List.map_eq_nil_iff.mp h.symm
      rfl
  | cons e rest ih =>
      cases cues with
      | nil => cases h
      | cons cue cues =>
          obtain ⟨hcue, hrest⟩ := List.cons.inj h
          obtain ⟨hstart, hduration, -⟩ := Step.cue_eq_ok hcue
          have hfinish : cue.finish = e.1 + e.2.duration := by
            rw [Cue.finish, hstart, hduration]
          rw [lastFinish, lastEnd, List.foldl_cons, List.foldl_cons, hfinish]
          exact ih hrest _

end Ends

namespace Action

variable {α : Type} [ExactScalar α]

mutual

/-- The steps of an action have ended when as much time has passed as the action takes. -/
theorem lastEnd_timed {time least : α} (h : time ≤ least) (a : Action α) :
    lastEnd least (a.timed time) = max least (time + a.duration) := by
  cases a with
  | step s =>
      rw [timed, duration]
      exact ExactScalar.larger_eq_max _ _
  | together actions =>
      rw [timed, duration]
      exact lastEnd_timedTogether h actions

theorem lastEnd_timedTogether {time least : α} (h : time ≤ least) (actions : List (Action α)) :
    lastEnd least (timedTogether time actions) = max least (time + longest 0 actions) := by
  cases actions with
  | nil =>
      rw [timedTogether, longest, add_zero, max_eq_left h]
      rfl
  | cons a rest =>
      rw [timedTogether, lastEnd_append, lastEnd_timed h a,
        lastEnd_timedTogether (le_trans h (le_max_left _ _)) rest, longest_cons_eq_max,
        ← max_add_add_left, max_assoc]

end

/-- The steps of actions in turn have ended when the last of the actions has. -/
theorem lastEnd_timedInTurn (time : α) (actions : List (Action α)) :
    lastEnd time (timedInTurn time actions) = endInTurn time actions := by
  induction actions generalizing time with
  | nil => rfl
  | cons a rest ih =>
      have hafter : time ≤ time + a.duration := le_add_of_nonneg_right a.duration_nonneg
      rw [timedInTurn, lastEnd_append, lastEnd_timed le_rfl, max_eq_right hafter, ih]
      rfl

/-- Actions in turn take the sum of their durations. -/
theorem endInTurn_eq_sum (actions : List (Action α)) :
    endInTurn 0 actions = Scalar.sum (actions.map duration) := by
  rw [endInTurn, Scalar.sum, List.foldl_map, neg_zero]

end Action

/-! ## The cues of one action -/

namespace Action

variable {α : Type}

/-- Some cues are those of an action at a time, and last for as long as the action takes. -/
structure IsCuedAt [Scalar α] (m : Model α) (scene : String) (time : α) (a : Action α)
    (cues : List (Cue α)) : Prop where
  cues_eq : (a.timed time).map (Step.cue m scene) = cues.map .ok
  starts : ∀ cue ∈ cues, cue.start = time
  ends : lastFinish time cues = time + a.duration

theorem isCuedAt_of_map_eq [ExactScalar α] {m : Model α} {scene : String} {time : α}
    {a : Action α} {cues : List (Cue α)}
    (h : (a.timed time).map (Step.cue m scene) = cues.map .ok) :
    a.IsCuedAt m scene time cues where
  cues_eq := h
  starts := by
    intro cue hcue
    have hok : .ok cue ∈ (a.timed time).map (Step.cue m scene) := by
      rw [h]
      exact List.mem_map_of_mem hcue
    obtain ⟨e, he, heq⟩ := List.mem_map.mp hok
    rw [(Step.cue_eq_ok heq).1]
    exact (timed_bounds time a e he).1
  ends := by
    rw [lastFinish_eq_lastEnd h, lastEnd_timed le_rfl]
    exact max_eq_right (le_add_of_nonneg_right a.duration_nonneg)

mutual

/-- The steps of an action in a group stand together among the steps of the group. -/
theorem timed_infix_of_mem_runs (time : α) (a : Action α) :
    ∀ e ∈ a.runs time, e.2.timed time <:+: a.timed time := by
  cases a with
  | step s =>
      intro e he
      rw [runs, List.mem_singleton] at he
      subst he
      exact List.infix_rfl
  | together actions =>
      intro e he
      rw [runs] at he
      rcases List.mem_cons.mp he with rfl | he
      · exact List.infix_rfl
      · rw [timed]
        exact timed_infix_of_mem_runsTogether time actions e he

theorem timed_infix_of_mem_runsTogether (time : α) (actions : List (Action α)) :
    ∀ e ∈ runsTogether time actions, e.2.timed time <:+: timedTogether time actions := by
  cases actions with
  | nil =>
      intro e he
      rw [runsTogether] at he
      exact absurd he List.not_mem_nil
  | cons a rest =>
      intro e he
      rw [runsTogether] at he
      rw [timedTogether]
      rcases List.mem_append.mp he with he | he
      · exact (timed_infix_of_mem_runs time a e he).trans (List.prefix_append _ _).isInfix
      · exact (timed_infix_of_mem_runsTogether time rest e he).trans
          (List.suffix_append _ _).isInfix

end

/-- With an action everything in it is cued, at the same time. -/
theorem IsCuedAt.of_mem_runs [ExactScalar α] {m : Model α} {scene : String} {time : α}
    {a : Action α} {cues : List (Cue α)} (h : a.IsCuedAt m scene time cues) :
    ∀ e ∈ a.runs time, ∃ inner, inner <:+: cues ∧ e.2.IsCuedAt m scene time inner := by
  intro e he
  obtain ⟨front, back, hsplit⟩ := timed_infix_of_mem_runs time a e he
  have hcues := h.cues_eq
  rw [← hsplit, List.map_append, List.map_append] at hcues
  obtain ⟨before, after, rfl, hbefore, -⟩ := List.map_eq_append_iff.mp hcues.symm
  obtain ⟨first, inner, rfl, -, hinner⟩ := List.map_eq_append_iff.mp hbefore
  exact ⟨inner, ⟨first, after, rfl⟩, isCuedAt_of_map_eq hinner.symm⟩

end Action

/-! ## The caution about long scenes -/

section Caution

variable {α : Type} [Scalar α] [NumberText α] {standards : Standards α}

theorem Scene.longScene_mem_cautions_iff {s : Scene α} {i : Nat} {path : String} :
    (∃ w ∈ s.cautions standards i, w.kind = .longScene ∧ w.path = path) ↔
      standards.longScene < s.actionTime ∧ path = scenePath i := by
  have hcamera : ∀ w ∈ s.camera.cautions standards.edgeMargin (scenePath i ++ ".camera"),
      w.kind = .elevationAtEdge := by
    intro w hw
    unfold Camera.cautions at hw
    split at hw
    · unfold Camera.elevationCautions at hw
      split_ifs at hw
      · rw [List.mem_singleton.mp hw]
      · exact absurd hw List.not_mem_nil
    · exact absurd hw List.not_mem_nil
  unfold cautions
  constructor
  · rintro ⟨w, hw, hkind, rfl⟩
    rcases List.mem_append.mp hw with hw | hw
    · rcases List.mem_append.mp hw with hw | hw
      · split_ifs at hw
        · rw [List.mem_singleton.mp hw] at hkind
          cases hkind
        · exact absurd hw List.not_mem_nil
      · rw [hcamera w hw] at hkind
        cases hkind
    · split_ifs at hw with hlong
      · rw [List.mem_singleton.mp hw]
        exact ⟨hlong, rfl⟩
      · exact absurd hw List.not_mem_nil
  · rintro ⟨hlong, rfl⟩
    rw [if_pos hlong]
    exact ⟨_, List.mem_append_right _ List.mem_cons_self, rfl, rfl⟩

/-- A scene is reported as long exactly if its actions take longer than the standards allow. -/
theorem Script.longScene_mem_review_iff {m : Model α} {script : Script α} {i : Nat} {s : Scene α}
    (h : script.scenes[i]? = some s) :
    (∃ w ∈ (script.review standards m).cautions, w.kind = .longScene ∧ w.path = scenePath i) ↔
      standards.longScene < s.actionTime := by
  have hcautions : (script.review standards m).cautions =
      script.scenes.zipIdx.flatMap fun e => e.1.cautions standards e.2 := rfl
  rw [hcautions]
  constructor
  · rintro ⟨w, hw, hkind, hpath⟩
    obtain ⟨⟨s', j⟩, hmem, hw⟩ := List.mem_flatMap.mp hw
    obtain ⟨hlong, hplace⟩ := Scene.longScene_mem_cautions_iff.mp ⟨w, hw, hkind, hpath⟩
    obtain rfl := Place.scenePath_inj hplace
    obtain rfl : s = s' := Option.some_inj.mp (h.symm.trans (List.mem_zipIdx_iff_getElem?.mp hmem))
    exact hlong
  · intro hlong
    obtain ⟨w, hw, hkind, hpath⟩ :=
      (Scene.longScene_mem_cautions_iff (i := i)).mpr ⟨hlong, rfl⟩
    exact ⟨w, List.mem_flatMap.mpr ⟨(s, i), List.mem_zipIdx_iff_getElem?.mpr h, hw⟩, hkind, hpath⟩

end Caution

/-! ## Estimate and production -/

namespace Scene

variable {α : Type}

/-- The cues of a produced scene are those of its steps. -/
theorem map_cue_timedSteps [Analytic α] {timing : Timing α} {fig : Figure α} {start : α}
    {stage : Stage α} {registry : Registry α} {s : Scene α} {produced : Produced α}
    (h : s.produce timing fig start stage registry = .ok produced) :
    s.timedSteps.map (Step.cue fig.model s.id) = (s.cues fig.model).map .ok :=
  untilError_eq_none_iff.mp (produce_eq_ok h).1

/--
What is written to the tracks of a produced scene is what its cues write between what
sets up the stage and what releases the highlights.  The cues of each action start when
as much time has passed as the actions before it take, and so do the cues of everything
in it.  They go on for as long as it takes, and the last action and the last cue of the
scene end after the time that a review estimates.  The scene lasts for that time or for
the time of reading, whichever is longer, and the padding, and it is reported as long
exactly if the last cue ends later than the standards allow.
-/
theorem timing_eq_estimate [ExactAnalytic α] {timing : Timing α} {fig : Figure α} {start : α}
    {stage : Stage α} {registry : Registry α} {s : Scene α} {produced : Produced α}
    (h : s.produce timing fig start stage registry = .ok produced) :
    produced.segment.tracks = Track.ofWrites
      (stage.writes ++ (stage.follow (s.cues fig.model)).2 ++
        releaseWrites (s.length timing) timing.highlightRelease
          (heldHighlights (s.cues fig.model))) ∧
    (∀ front a back, s.actions = front ++ a :: back →
      ∃ earlier own later, s.cues fig.model = earlier ++ own ++ later ∧
        lastFinish 0 earlier = Scalar.sum (front.map Action.duration) ∧
        a.IsCuedAt fig.model s.id (Scalar.sum (front.map Action.duration)) own ∧
        ∀ e ∈ a.runs (Scalar.sum (front.map Action.duration)), ∃ inner, inner <:+: own ∧
          e.2.IsCuedAt fig.model s.id (Scalar.sum (front.map Action.duration)) inner) ∧
    Action.endInTurn 0 s.actions = s.actionTime ∧
    lastFinish 0 (s.cues fig.model) = s.actionTime ∧
    produced.segment.start = start ∧
    produced.segment.duration =
      max (if 0 < timing.charsPerSecond then
        ((s.narration.length : Nat) : α) / timing.charsPerSecond else 0) s.actionTime +
        timing.scenePadding ∧
    ∀ [NumberText α] (standards : Standards α) (m : Model α) (script : Script α) (i : Nat),
      script.scenes[i]? = some s →
        ((∃ w ∈ (script.review standards m).cautions,
          w.kind = .longScene ∧ w.path = scenePath i) ↔
            standards.longScene < lastFinish 0 (s.cues fig.model)) := by
  obtain ⟨-, hstart, hfinish, htracks, -, -⟩ := produce_eq_ok h
  have hcues := map_cue_timedSteps h
  have hsum : Action.endInTurn 0 s.actions = s.actionTime := Action.endInTurn_eq_sum s.actions
  have hlast : lastFinish 0 (s.cues fig.model) = s.actionTime := by
    rw [lastFinish_eq_lastEnd hcues, timedSteps, Action.lastEnd_timedInTurn, hsum]
  refine ⟨htracks, ?_, hsum, hlast, hstart, ?_, ?_⟩
  · intro front a back hsplit
    rw [timedSteps, hsplit, Action.timedInTurn_append, Action.timedInTurn,
      Action.endInTurn_eq_sum, List.map_append, List.map_append] at hcues
    obtain ⟨earlier, rest, hearlier, hfront, hrest⟩ := List.map_eq_append_iff.mp hcues.symm
    obtain ⟨own, later, rfl, hown, -⟩ := List.map_eq_append_iff.mp hrest
    have hcued := Action.isCuedAt_of_map_eq hown.symm
    refine ⟨earlier, own, later, ?_, ?_, hcued, hcued.of_mem_runs⟩
    · rw [hearlier, List.append_assoc]
    · rw [lastFinish_eq_lastEnd hfront.symm, Action.lastEnd_timedInTurn, Action.endInTurn_eq_sum]
  · rw [Segment.duration, hstart, hfinish, add_sub_cancel_left, length, readingTime,
      ExactScalar.larger_eq_max, hsum]
  · intro _ standards m script i hscene
    rw [hlast]
    exact Script.longScene_mem_review_iff hscene

/-- A group with a group in it, a length below zero and a step that could not be read. -/
def crowd {α : Type} [Scalar α] : Action α :=
  .together [.step (.reveal "A"),
    .together [.step (.fadeOut "B" (some (-2.0))), .step (.unread ⟨.null, .noVerb⟩)],
    .step (.pulse "C" none none)]

/-- A scene that waits for fifteen seconds before all of that happens at once. -/
def crowdedScene {α : Type} [Scalar α] : Scene α :=
  ⟨"crowded", "", Camera.standard, [.step (.wait 15.0), crowd], none⟩

theorem duration_wait : (.step (.wait 15.0) : Action ℝ).duration = 15.0 := by
  rw [Action.duration, Step.duration, ExactScalar.nonNegative_eq_max]
  exact max_eq_right (ExactScalar.literal_nonneg _ _ _)

theorem duration_crowd : (crowd : Action ℝ).duration = 1.5 := by
  simp only [crowd, Action.duration, Action.longest, Step.duration, Option.getD_some,
    ExactScalar.nonNegative_eq_max, ExactScalar.larger_eq_max, ExactScalar.literal_eq]
  norm_num

theorem actionTime_crowdedScene : (crowdedScene : Scene ℝ).actionTime = 16.5 := by
  rw [actionTime, ← Action.endInTurn_eq_sum]
  change 0 + (.step (.wait 15.0) : Action ℝ).duration + (crowd : Action ℝ).duration = _
  rw [duration_wait, duration_crowd]
  norm_num

theorem timing_eq_estimate_crowded :
    ∃ fig produced, (plainSquare : Model ℝ).figure = .ok fig ∧
      crowdedScene.produce Timing.usual fig 0 (Stage.initial plainSquare) OrderedMap.empty =
        .ok produced ∧
      (∃ own : List (Cue ℝ), own <:+: crowdedScene.cues plainSquare ∧
        crowd.IsCuedAt plainSquare "crowded" 15.0 own) ∧
      lastFinish 0 (crowdedScene.cues (plainSquare : Model ℝ)) = 16.5 ∧
      ∃ _ : NumberText ℝ, ∃ w ∈
        ((⟨"", [crowdedScene]⟩ : Script ℝ).review Standards.usual plainSquare).cautions,
          w.kind = .longScene ∧ w.path = scenePath 0 := by
  have hscene : ∃ produced, crowdedScene.produce Timing.usual
      (⟨plainSquare, (plainSquare.solid.vertices?).getD .empty⟩ : Figure ℝ) 0
      (Stage.initial plainSquare) OrderedMap.empty = .ok produced :=
    exists_produce_eq_ok Timing.usual 0 _ rfl rfl rfl
  obtain ⟨produced, h⟩ := hscene
  obtain ⟨-, hactions, -, hlast, -, -, hreview⟩ := timing_eq_estimate h
  have hfinish : lastFinish 0 (crowdedScene.cues (plainSquare : Model ℝ)) = 16.5 :=
    hlast.trans actionTime_crowdedScene
  have hbefore : Scalar.sum ([.step (.wait 15.0)].map Action.duration) = (15.0 : ℝ) := by
    rw [← Action.endInTurn_eq_sum]
    exact (zero_add _).trans duration_wait
  refine ⟨_, produced, rfl, h, ?_, hfinish, ⟨fun _ => "", fun _ => ""⟩, ?_⟩
  · obtain ⟨earlier, own, later, hcues, -, hcued, -⟩ := hactions [.step (.wait 15.0)] crowd [] rfl
    rw [hbefore] at hcued
    exact ⟨own, ⟨earlier, later, hcues.symm⟩, hcued⟩
  · have hlong : (Standards.usual : Standards ℝ).longScene < 16.5 := by
      rw [Standards.usual, ExactScalar.literal_eq, ExactScalar.literal_eq]
      norm_num
    refine (@hreview ⟨fun _ => "", fun _ => ""⟩ Standards.usual plainSquare _ 0 rfl).mpr ?_
    exact hlong.trans_eq hfinish.symm

end Scene

end Storyboard
