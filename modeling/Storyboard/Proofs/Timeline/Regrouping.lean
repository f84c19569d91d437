import Mathlib.Data.List.Forall2
import Mathlib.Logic.Relation
import Storyboard.Proofs.Timeline.Performance

/-!
# Regrouping

A group in a group starts with it and does not outlast it, a group of one takes as long
as that one, and a step that could not be read takes no time and does nothing.  So a
script in which groups are dissolved into the groups around them, groups of one are
replaced by what is in them, and unread steps are left out is produced as it was: the
same segments with the same tracks in the same order, the same elements, or the same
fault.
-/

namespace Storyboard

variable {α : Type}

/-! ## Regrouped scripts -/

/-- Whether a step could be read. -/
def Step.isRead : Step α → Bool
  | unread _ => false
  | _ => true

namespace Action

/-- Whether an action is a group, or a step that could be read. -/
def isRead : Action α → Bool
  | step s => s.isRead
  | together _ => true

mutual

/-- An action without the unread steps in it. -/
def withoutUnread : Action α → Action α
  | .step s => .step s
  | .together actions => .together (dropUnread actions)

/-- Some actions less the unread steps among them and in them. -/
def dropUnread : List (Action α) → List (Action α)
  | [] => []
  | a :: rest => if a.isRead then withoutUnread a :: dropUnread rest else dropUnread rest

end

/--
An action in which, at any depth, a group of one has become what was in it, a group in a
group has been dissolved, or an unread step of a group has been left out.
-/
inductive Regrouped : Action α → Action α → Prop where
  | alone (a : Action α) : Regrouped (.together [a]) a
  | dissolved (front actions back : List (Action α)) :
    Regrouped (.together (front ++ .together actions :: back))
      (.together (front ++ (actions ++ back)))
  | dropped (front back : List (Action α)) (u : Unread) :
    Regrouped (.together (front ++ .step (.unread u) :: back)) (.together (front ++ back))
  | inside (front back : List (Action α)) {a a' : Action α} (h : Regrouped a a') :
    Regrouped (.together (front ++ a :: back)) (.together (front ++ a' :: back))

end Action

namespace Script

/-- A script without its unread steps. -/
def withoutUnread (s : Script α) : Script α :=
  { s with scenes := s.scenes.map fun scene =>
      { scene with actions := Action.dropUnread scene.actions } }

/--
A script in which an action of one scene has been regrouped, or an unread step that
stands by itself has been left out.
-/
inductive Regrouped : Script α → Script α → Prop where
  | action (title : String) (before after : List (Scene α)) (scene : Scene α)
      (front back : List (Action α)) {a a' : Action α} (h : a.Regrouped a') :
    Regrouped
      ⟨title, before ++ { scene with actions := front ++ a :: back } :: after⟩
      ⟨title, before ++ { scene with actions := front ++ a' :: back } :: after⟩
  | dropped (title : String) (before after : List (Scene α)) (scene : Scene α)
      (front back : List (Action α)) (u : Unread) :
    Regrouped
      ⟨title, before ++ { scene with actions := front ++ .step (.unread u) :: back } :: after⟩
      ⟨title, before ++ { scene with actions := front ++ back } :: after⟩

end Script

/-! ## What can be heard of an action -/

/-- The steps that could be read, with their times. -/
def readSteps (steps : List (TimedStep α)) : List (TimedStep α) :=
  steps.filter fun e => e.2.isRead

theorem readSteps_append (front back : List (TimedStep α)) :
    readSteps (front ++ back) = readSteps front ++ readSteps back :=
  List.filter_append _ _

theorem Step.eq_unread {s : Step α} (h : s.isRead = false) : ∃ u, s = .unread u := by
  cases s with
  | unread u => exact ⟨u, rfl⟩
  | reveal | hide | fadeIn | fadeOut | highlight | pulse | create | animatePoint | fold | wait =>
      cases h

theorem readSteps_unread {a : Action α} (h : a.isRead = false) (start : α) :
    readSteps (a.timed start) = [] := by
  cases a with
  | step s => simpa [Action.timed, readSteps, Action.isRead] using h
  | together actions => cases h

/-- Actions that take the same time and of which the same steps are read, at the same times. -/
structure Action.PlaysAs [Scalar α] (a a' : Action α) : Prop where
  duration : a'.duration = a.duration
  steps : ∀ start, readSteps (a'.timed start) = readSteps (a.timed start)

/-- Scenes told alike that end alike, and of which the same steps are read at the same times. -/
structure Scene.PlaysAs [Scalar α] (s s' : Scene α) : Prop where
  id : s'.id = s.id
  narration : s'.narration = s.narration
  camera : s'.camera = s.camera
  measurements : s'.measurements = s.measurements
  ending : Action.endInTurn 0 s'.actions = Action.endInTurn 0 s.actions
  steps : readSteps s'.timedSteps = readSteps s.timedSteps

theorem Scene.PlaysAs.refl [Scalar α] (s : Scene α) : s.PlaysAs s :=
  ⟨rfl, rfl, rfl, rfl, rfl, rfl⟩

/-! ## Exact lengths of groups -/

section Exact

variable [ExactScalar α]

namespace Action

theorem duration_unread {a : Action α} (h : a.isRead = false) : a.duration = 0 := by
  cases a with
  | step s =>
      obtain ⟨u, rfl⟩ := Step.eq_unread h
      rw [duration, Step.duration]
  | together actions => cases h

/-! ## Regrouping changes nothing that can be heard -/

theorem playsAs_of_regrouped {a a' : Action α} (h : a.Regrouped a') : a.PlaysAs a' := by
  induction h with
  | alone a =>
      refine ⟨?_, fun start => ?_⟩
      · rw [duration, longest_cons_eq_max, longest, max_eq_left a.duration_nonneg]
      · rw [timed, timedTogether, timedTogether, List.append_nil]
  | dissolved front actions back =>
      refine ⟨?_, fun start => ?_⟩
      · rw [duration, duration, longest_append_eq_max, longest_append_eq_max,
          longest_append_eq_max, longest_cons_eq_max, duration]
      · rw [timed, timed, timedTogether_append, timedTogether_append, timedTogether_append,
          timedTogether, timed]
  | dropped front back u =>
      have hback : (0 : α) ≤ longest 0 back := le_longest le_rfl back
      refine ⟨?_, fun start => ?_⟩
      · rw [duration, duration, longest_append_eq_max, longest_append_eq_max,
          longest_cons_eq_max, duration_unread rfl, max_eq_right hback]
      · rw [timed, timed, timedTogether_append, timedTogether_append, timedTogether,
          readSteps_append, readSteps_append, readSteps_append, readSteps_unread rfl,
          List.nil_append]
  | inside front back _ ih =>
      refine ⟨?_, fun start => ?_⟩
      · rw [duration, duration, longest_append_eq_max, longest_append_eq_max,
          longest_cons_eq_max, longest_cons_eq_max, ih.duration]
      · simp only [timed, timedTogether_append, timedTogether, readSteps_append, ih.steps]

mutual

theorem playsAs_withoutUnread (a : Action α) : a.PlaysAs a.withoutUnread := by
  cases a with
  | step s =>
      rw [withoutUnread]
      exact ⟨rfl, fun _ => rfl⟩
  | together actions =>
      obtain ⟨hlongest, hsteps⟩ := dropUnread_together actions
      rw [withoutUnread]
      refine ⟨?_, fun start => ?_⟩
      · rw [duration, duration, hlongest]
      · rw [timed, timed, hsteps]

/-- Without its unread steps a group is as long as before, and the rest of it is the same. -/
theorem dropUnread_together (actions : List (Action α)) :
    longest 0 (dropUnread actions) = longest 0 actions ∧
    ∀ start, readSteps (timedTogether start (dropUnread actions)) =
      readSteps (timedTogether start actions) := by
  cases actions with
  | nil =>
      rw [dropUnread]
      exact ⟨rfl, fun _ => rfl⟩
  | cons a rest =>
      obtain ⟨hlongest, hsteps⟩ := dropUnread_together rest
      have hplays := playsAs_withoutUnread a
      rw [dropUnread]
      split_ifs with hread
      · refine ⟨?_, fun start => ?_⟩
        · rw [longest_cons_eq_max, longest_cons_eq_max, hplays.duration, hlongest]
        · rw [timedTogether, timedTogether, readSteps_append, readSteps_append, hplays.steps,
            hsteps]
      · have hunread := eq_false_of_ne_true hread
        have hrest : (0 : α) ≤ longest 0 rest := le_longest le_rfl rest
        refine ⟨?_, fun start => ?_⟩
        · rw [longest_cons_eq_max, duration_unread hunread, max_eq_right hrest, hlongest]
        · rw [timedTogether, readSteps_append, readSteps_unread hunread, List.nil_append, hsteps]

end

/-- Without the unread steps among them, actions that follow one another keep their times. -/
theorem dropUnread_inTurn (start : α) (actions : List (Action α)) :
    endInTurn start (dropUnread actions) = endInTurn start actions ∧
    readSteps (timedInTurn start (dropUnread actions)) =
      readSteps (timedInTurn start actions) := by
  induction actions generalizing start with
  | nil =>
      rw [dropUnread]
      exact ⟨rfl, rfl⟩
  | cons a rest ih =>
      have hplays := playsAs_withoutUnread a
      rw [dropUnread]
      split_ifs with hread
      · obtain ⟨hend, hsteps⟩ := ih (start + a.duration)
        refine ⟨?_, ?_⟩
        · rw [endInTurn, List.foldl_cons, hplays.duration]
          exact hend
        · rw [timedInTurn, timedInTurn, readSteps_append, readSteps_append, hplays.steps,
            hplays.duration, hsteps]
      · have hunread := eq_false_of_ne_true hread
        have hstart : start + a.duration = start := by rw [duration_unread hunread, add_zero]
        obtain ⟨hend, hsteps⟩ := ih start
        refine ⟨?_, ?_⟩
        · rw [hend]
          change _ = endInTurn (start + a.duration) rest
          rw [hstart]
        · rw [timedInTurn, readSteps_append, readSteps_unread hunread, hstart, List.nil_append,
            hsteps]

end Action

theorem Scene.playsAs_of_action (scene : Scene α) (front back : List (Action α))
    {a a' : Action α} (h : a.PlaysAs a') :
    Scene.PlaysAs { scene with actions := front ++ a :: back }
      { scene with actions := front ++ a' :: back } where
  id := rfl
  narration := rfl
  camera := rfl
  measurements := rfl
  ending := by
    simp only [Action.endInTurn, List.foldl_append, List.foldl_cons, h.duration]
  steps := by
    simp only [Scene.timedSteps, Action.timedInTurn_append, Action.timedInTurn,
      readSteps_append, h.steps, h.duration]

theorem Scene.playsAs_of_dropped (scene : Scene α) (front back : List (Action α)) (u : Unread) :
    Scene.PlaysAs { scene with actions := front ++ .step (.unread u) :: back }
      { scene with actions := front ++ back } := by
  have hnone : (Action.step (.unread u) : Action α).isRead = false := rfl
  have hduration : (Action.step (.unread u) : Action α).duration = 0 :=
    Action.duration_unread hnone
  refine ⟨rfl, rfl, rfl, rfl, ?_, ?_⟩
  · simp only [Action.endInTurn, List.foldl_append, List.foldl_cons, hduration, add_zero]
  · simp only [Scene.timedSteps, Action.timedInTurn_append, Action.timedInTurn,
      readSteps_append, readSteps_unread hnone, hduration, add_zero, List.nil_append]

theorem Script.playsAs_of_regrouped {s s' : Script α} (h : s.Regrouped s') :
    List.Forall₂ Scene.PlaysAs s.scenes s'.scenes := by
  have hsame : ∀ scenes : List (Scene α), List.Forall₂ Scene.PlaysAs scenes scenes :=
    fun scenes => List.forall₂_same.mpr fun scene _ => Scene.PlaysAs.refl scene
  cases h with
  | action title before after scene front back h =>
      exact List.rel_append (hsame before)
        (.cons (scene.playsAs_of_action front back (Action.playsAs_of_regrouped h))
          (hsame after))
  | dropped title before after scene front back u =>
      exact List.rel_append (hsame before)
        (.cons (scene.playsAs_of_dropped front back u) (hsame after))

theorem Script.playsAs_withoutUnread (s : Script α) :
    List.Forall₂ Scene.PlaysAs s.scenes s.withoutUnread.scenes := by
  refine List.forall₂_map_right_iff.mpr (List.forall₂_same.mpr fun scene _ => ?_)
  obtain ⟨hend, hsteps⟩ := Action.dropUnread_inTurn 0 scene.actions
  exact ⟨rfl, rfl, rfl, rfl, hend, hsteps⟩

end Exact

/-! ## Cues that do nothing -/

/-- Whether an effect is none. -/
def Effect.isRest : Effect α → Bool
  | rest => true
  | _ => false

/-- The cues that do something. -/
def activeCues (cues : List (Cue α)) : List (Cue α) :=
  cues.filter fun cue => !cue.effect.isRest

theorem Effect.eq_rest {effect : Effect α} (h : effect.isRest = true) : effect = .rest := by
  cases effect with
  | rest => rfl
  | reveal | hide | fadeIn | fadeOut | highlight | pulse | create | drive | fold => cases h

/-- What ignores the cues that do nothing comes to the same without them. -/
theorem foldl_activeCues {β : Type} {f : β → Cue α → β}
    (hf : ∀ b cue, cue.effect = .rest → f b cue = b) (b : β) (cues : List (Cue α)) :
    (activeCues cues).foldl f b = cues.foldl f b := by
  unfold activeCues
  induction cues generalizing b with
  | nil => rfl
  | cons cue rest ih =>
      cases hrest : cue.effect.isRest with
      | true =>
          rw [List.filter_cons_of_neg (by simp [hrest]), List.foldl_cons,
            hf b cue (Effect.eq_rest hrest), ih]
      | false =>
          rw [List.filter_cons_of_pos (by simp [hrest]), List.foldl_cons, List.foldl_cons, ih]

theorem Registry.registerAll_activeCues (r : Registry α) (cues : List (Cue α)) :
    r.registerAll (activeCues cues) = r.registerAll cues := by
  refine foldl_activeCues (fun b cue hrest => ?_) r cues
  rw [hrest]

theorem heldHighlights_activeCues (cues : List (Cue α)) :
    heldHighlights (activeCues cues) = heldHighlights cues := by
  refine foldl_activeCues (fun held cue hrest => ?_) OrderedMap.empty cues
  rw [hrest]

section Scenes

variable [Scalar α]

theorem Stage.follow_activeCues (stage : Stage α) (cues : List (Cue α)) :
    stage.follow (activeCues cues) = stage.follow cues := by
  unfold activeCues
  induction cues generalizing stage with
  | nil => rfl
  | cons cue rest ih =>
      cases hrest : cue.effect.isRest with
      | true =>
          have heffect := Effect.eq_rest hrest
          have hwrites : cue.writes stage = [] := by rw [Cue.writes, heffect]
          rw [List.filter_cons_of_neg (by simp [hrest]), ih, follow, hwrites, heffect]
          rfl
      | false => rw [List.filter_cons_of_pos (by simp [hrest]), follow, follow, ih]

/-- The unread steps of a scene have cues that do nothing, and do not fail. -/
theorem untilError_readSteps (m : Model α) (scene : String) (steps : List (TimedStep α)) :
    activeCues (untilError ((readSteps steps).map (Step.cue m scene))).1 =
        activeCues (untilError (steps.map (Step.cue m scene))).1 ∧
      (untilError ((readSteps steps).map (Step.cue m scene))).2 =
        (untilError (steps.map (Step.cue m scene))).2 := by
  unfold readSteps
  induction steps with
  | nil => exact ⟨rfl, rfl⟩
  | cons e rest ih =>
      obtain ⟨hactive, hfault⟩ := ih
      cases hread : e.2.isRead with
      | true =>
          rw [List.filter_cons_of_pos (by simpa using hread), List.map_cons, List.map_cons]
          cases hcue : Step.cue m scene e with
          | error fault => exact ⟨rfl, rfl⟩
          | ok cue =>
              refine ⟨?_, hfault⟩
              unfold activeCues at hactive ⊢
              simp only [untilError, List.filter_cons, hactive]
      | false =>
          obtain ⟨u, hu⟩ := Step.eq_unread hread
          have hcue : Step.cue m scene e = .ok ⟨e.1, e.2.duration, .rest⟩ := by
            rw [Step.cue, hu]
            rfl
          rw [List.filter_cons_of_neg (by simp [hread]), List.map_cons, hcue]
          exact ⟨hactive, hfault⟩

end Scenes

/-! ## The production -/

section Production

variable [Analytic α]

/-- A scene is produced as another that plays as it does, or fails as it does. -/
theorem Scene.PlaysAs.produce {s s' : Scene α} (h : s.PlaysAs s') (timing : Timing α)
    (fig : Figure α) (start : α) (stage : Stage α) (registry : Registry α) :
    s'.produce timing fig start stage registry = s.produce timing fig start stage registry := by
  have hcamera : s'.cameraKey fig stage registry = s.cameraKey fig stage registry := by
    rw [cameraKey, cameraKey, h.camera]
  have hlength : s'.length timing = s.length timing := by
    rw [length, length, readingTime, readingTime, h.narration, h.ending]
  obtain ⟨hactive, hfault⟩ := untilError_readSteps fig.model s.id s.timedSteps
  obtain ⟨hactive', hfault'⟩ := untilError_readSteps fig.model s.id s'.timedSteps
  rw [h.steps] at hactive' hfault'
  rw [Scene.produce, Scene.produce, hcamera, hlength, h.id, h.narration, h.measurements]
  generalize untilError (s.timedSteps.map (Step.cue fig.model s.id)) = cued at *
  generalize untilError (s'.timedSteps.map (Step.cue fig.model s.id)) = cued' at *
  obtain ⟨cues, fault⟩ := cued
  obtain ⟨cues', fault'⟩ := cued'
  have hcues : activeCues cues' = activeCues cues := hactive'.symm.trans hactive
  obtain rfl : fault' = fault := hfault'.symm.trans hfault
  dsimp only
  rw [← Registry.registerAll_activeCues registry cues',
    ← Registry.registerAll_activeCues registry cues, ← heldHighlights_activeCues cues',
    ← heldHighlights_activeCues cues, ← Stage.follow_activeCues stage cues',
    ← Stage.follow_activeCues stage cues, hcues]

namespace Script

theorem produceFrom_of_playsAs {scenes scenes' : List (Scene α)}
    (h : List.Forall₂ Scene.PlaysAs scenes scenes') (timing : Timing α) (fig : Figure α)
    (start : α) (stage : Stage α) (registry : Registry α) :
    produceFrom timing fig start stage registry scenes' =
      produceFrom timing fig start stage registry scenes := by
  induction h generalizing start stage registry with
  | nil => rfl
  | cons hscene _ ih => simp only [produceFrom, hscene.produce, ih]

theorem produce_of_playsAs {s s' : Script α}
    (h : List.Forall₂ Scene.PlaysAs s.scenes s'.scenes) (timing : Timing α) (m : Model α) :
    s'.produce timing m = s.produce timing m := by
  rw [produce, produce]
  cases m.figure with
  | error fault => rfl
  | ok fig => exact produceFrom_of_playsAs h timing fig 0 _ _

end Script

end Production

namespace Script

/--
However often a group is dissolved into the group around it, a group of one is replaced
by what is in it, and an unread step is left out, the script is produced as it was, with
the same timeline and the same elements or with the same fault.  So it is when all of
the unread steps are left out at once.
-/
theorem produce_of_regrouped [ExactAnalytic α] (timing : Timing α) (m : Model α)
    (s : Script α) :
    (∀ s', Relation.ReflTransGen Regrouped s s' → s'.produce timing m = s.produce timing m) ∧
    s.withoutUnread.produce timing m = s.produce timing m := by
  refine ⟨fun s' h => ?_, produce_of_playsAs (playsAs_withoutUnread s) timing m⟩
  induction h with
  | refl => rfl
  | tail _ hstep ih => exact (produce_of_playsAs (playsAs_of_regrouped hstep) timing m).trans ih

/-- A scene of some actions that is not told and is seen from the standard camera. -/
def untoldScene (actions : List (Action α)) : Script α :=
  ⟨"", [⟨"untold", "", Camera.standard, actions, none⟩]⟩

/-- Something that is no action. -/
def noAction : Action α := .step (.unread ⟨.null, .noVerb⟩)

/-- A group of two groups, one of them with something in it that is no action. -/
def nestedActions : List (Action α) :=
  [.together [.together [.step (.reveal "A"), noAction], .together [.step (.fadeIn "B" none)]],
    noAction]

/-- The same in one group. -/
def flatActions : List (Action α) :=
  [.together [.step (.reveal "A"), .step (.fadeIn "B" none)]]

theorem regrouped_nestedActions :
    Relation.ReflTransGen Regrouped (untoldScene nestedActions : Script α)
      (untoldScene flatActions) := by
  let scene : Scene α := ⟨"untold", "", Camera.standard, [], none⟩
  let shown : Action α := .step (.reveal "A")
  let faded : Action α := .step (.fadeIn "B" none)
  have hinner : Regrouped (untoldScene nestedActions)
      (untoldScene [.together [.together [shown], .together [faded]], noAction]) :=
    .action "" [] [] scene [] [noAction]
      (.inside [] [.together [faded]] (.dropped [shown] [] ⟨.null, .noVerb⟩))
  have halone : Regrouped (untoldScene [.together [.together [shown], .together [faded]], noAction])
      (untoldScene [.together [shown, .together [faded]], noAction]) :=
    .action "" [] [] scene [] [noAction] (.inside [] [.together [faded]] (.alone shown))
  have hdissolved : Regrouped (untoldScene [.together [shown, .together [faded]], noAction])
      (untoldScene [.together [shown, faded], noAction]) :=
    .action "" [] [] scene [] [noAction] (.dissolved [shown] [faded] [])
  have hdropped : Regrouped (untoldScene [.together [shown, faded], noAction])
      (untoldScene flatActions) :=
    .dropped "" [] [] scene [.together [shown, faded]] [] ⟨.null, .noVerb⟩
  exact .head hinner (.head halone (.head hdissolved (.single hdropped)))

theorem produce_of_regrouped_nested :
    Relation.ReflTransGen Regrouped (untoldScene nestedActions : Script ℝ)
      (untoldScene flatActions) ∧
    ∃ production,
      (untoldScene nestedActions : Script ℝ).produce Timing.usual plainSquare = .ok production ∧
      (untoldScene flatActions : Script ℝ).produce Timing.usual plainSquare = .ok production ∧
      (untoldScene nestedActions : Script ℝ).withoutUnread.produce Timing.usual plainSquare =
        .ok production := by
  obtain ⟨production, -, h, -⟩ :=
    exists_performance_of_single (Timing.usual : Timing ℝ) (m := plainSquare)
      (s := untoldScene nestedActions) rfl rfl
      (Scene.exists_produce_eq_ok Timing.usual 0 _ rfl rfl rfl)
  obtain ⟨hregrouped, hunread⟩ :=
    produce_of_regrouped Timing.usual plainSquare (untoldScene nestedActions : Script ℝ)
  exact ⟨regrouped_nestedActions, production, h,
    (hregrouped _ regrouped_nestedActions).trans h, hunread.trans h⟩

end Script

end Storyboard
