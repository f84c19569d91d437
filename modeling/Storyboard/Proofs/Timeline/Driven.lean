import Storyboard.Proofs.Timeline.Beginning
import Storyboard.Proofs.Timeline.SelfContained
import Storyboard.Proofs.Timeline.Untouched

/-!
# Folds that are driven by a parameter

A channel that no scene has written to so far still shows what the first stage held.
The first stage gives every fold an angle, and a given angle takes precedence over the
parameter that drives the fold.  So the fold rests where its parameter began, however the
parameter moves, until an action folds it.
-/

namespace Storyboard

/-! ## Channels that nothing has written to -/

theorem Stage.value?_follow_of_notMem {α : Type} [Scalar α] {cues : List (Cue α)} {c : Channel}
    (h : ∀ cue ∈ cues, c ∉ cue.effect.channels) (stage : Stage α) :
    (stage.follow cues).1.value? c = stage.value? c := by
  have hnone : leavings c cues = [] :=
    List.filterMap_eq_nil_iff.mpr fun cue hcue => Cue.leaving?_eq_none (h cue hcue)
  rw [value?_follow, hnone]
  rfl

/-- A scene hands on an untouched channel as it was handed it. -/
theorem Scene.value?_stage_of_notMem_channels {α : Type} [Analytic α] {timing : Timing α}
    {fig : Figure α} {start : α} {stage : Stage α} {registry : Registry α} {s : Scene α}
    {produced : Produced α} (h : s.produce timing fig start stage registry = .ok produced)
    {c : Channel} (hc : c ∉ s.channels fig.model) :
    produced.stage.value? c = stage.value? c := by
  obtain ⟨-, -, -, -, hstage, -⟩ := produce_eq_ok h
  rw [hstage]
  exact Stage.value?_follow_of_notMem (fun cue hcue hmem => hc (channels_of_mem_cues hcue hmem)) _

/-- The channels that the scenes of some performances write to. -/
def channelsUpTo {α : Type} (m : Model α) (ps : List (Performance α)) : List Channel :=
  ps.flatMap fun p => p.scene.channels m

namespace Script

variable {α : Type} [Analytic α] {timing : Timing α}

/-- A performance finds on a channel what the first one found if none in between wrote to it. -/
theorem value?_stage_of_performFrom {fig : Figure α} {start : α} {stage : Stage α}
    {registry : Registry α} {scenes : List (Scene α)} {front back : List (Performance α)}
    {p : Performance α}
    (h : performFrom timing fig start stage registry scenes = front ++ p :: back) {c : Channel}
    (hc : c ∉ channelsUpTo fig.model front) : p.stage.value? c = stage.value? c := by
  induction front generalizing start stage registry scenes with
  | nil =>
      cases scenes with
      | nil => cases h
      | cons s rest =>
          rw [performFrom] at h
          split at h
          next => cases h
          next =>
            cases h
            rfl
  | cons first front ih =>
      rw [channelsUpTo, List.flatMap_cons, List.mem_append, not_or] at hc
      cases scenes with
      | nil => cases h
      | cons s rest =>
          rw [performFrom] at h
          split at h
          next => cases h
          next produced hproduce =>
            obtain ⟨rfl, hrest⟩ := List.cons.inj h
            rw [ih hrest hc.2]
            exact Scene.value?_stage_of_notMem_channels hproduce hc.1

theorem value?_stage_of_performances {m : Model α} {s : Script α}
    {front back : List (Performance α)} {p : Performance α}
    (h : s.performances timing m = front ++ p :: back) {c : Channel}
    (hc : c ∉ channelsUpTo m front) : p.stage.value? c = (Stage.initial m).value? c := by
  rw [performances] at h
  split at h
  next => exact absurd h.symm (List.append_ne_nil_of_right_ne_nil _ (List.cons_ne_nil _ _))
  next fig hfig =>
    obtain rfl := Model.model_of_figure hfig
    exact value?_stage_of_performFrom h hc

section Playing

variable {m : Model α} {s : Script α} {production : Production α} {t : α} {f : Frame α}

/-- Every frame shows some performance. -/
theorem exists_split_of_frame (h : s.produce timing m = .ok production)
    (hframe : production.timeline.frame t = .ok f) :
    ∃ front p back, s.performances timing m = front ++ p :: back ∧
      production.timeline.segmentPlaying t = .ok p.segment := by
  obtain ⟨segment, hmem, hplaying, -⟩ := Timeline.frame_eq_ok hframe
  rw [(segments_of_produce h).2] at hmem
  obtain ⟨p, hp, rfl⟩ := List.mem_map.mp hmem
  obtain ⟨front, back, hsplit⟩ := List.append_of_mem hp
  exact ⟨front, p, back, hsplit, hplaying⟩

/-- What no scene of a script writes to has not been written to up to any performance. -/
theorem notMem_channelsUpTo (h : s.produce timing m = .ok production)
    {front back : List (Performance α)} {p : Performance α}
    (hsplit : s.performances timing m = front ++ p :: back) {c : Channel}
    (hc : ∀ scene ∈ s.scenes, c ∉ scene.channels m) : c ∉ channelsUpTo m (front ++ [p]) := by
  intro hmem
  obtain ⟨r, hr, hchannel⟩ := List.mem_flatMap.mp hmem
  have hperformed : r ∈ s.performances timing m := by
    rw [hsplit, ← List.singleton_append, ← List.append_assoc]
    exact List.mem_append_left back hr
  refine hc r.scene ?_ hchannel
  rw [← (segments_of_produce h).1]
  exact List.mem_map_of_mem hperformed

/-- A frame keeps what the first stage held, off the channels of the scenes up to its own. -/
theorem frame_keeps_initial [LawfulScalar α] {front back : List (Performance α)}
    {p : Performance α}
    (hsplit : s.performances timing m = front ++ p :: back)
    (hplaying : production.timeline.segmentPlaying t = .ok p.segment)
    (hframe : production.timeline.frame t = .ok f) :
    f.Keeps (Stage.initial m) (channelsUpTo m (front ++ [p])) := by
  obtain ⟨segment, -, hplaying', rfl⟩ := Timeline.frame_eq_ok hframe
  obtain rfl : p.segment = segment := Except.ok.inj (hplaying.symm.trans hplaying')
  have hp : p ∈ s.performances timing m := by
    rw [hsplit]
    exact List.mem_append_right _ List.mem_cons_self
  obtain ⟨fig, rfl, hproduce⟩ := produce_of_mem_performances hp
  apply Frame.keeps_of_value?
  intro c hc
  rw [channelsUpTo, List.flatMap_append, List.mem_append, not_or, List.flatMap_singleton] at hc
  have hshown := Scene.value?_frame_of_notMem_channels hproduce
    (timeWithin production.timeline.duration t)
    (timeWithin_bounds p.segment.duration
      (timeWithin production.timeline.duration t - p.segment.start)).1 hc.2
  exact hshown.trans (value?_stage_of_performances hsplit hc.1)

end Playing

/--
Every frame shows some performance.  If no action has folded a driven fold up to there, its
angle is the one on the first stage, whatever has been done to its parameter.  So it is the
value of the parameter in that frame exactly if that value is the angle on the first stage.
Where no fold and no parameter is declared twice the angle is the initial value of the
parameter, and the parameter still has that value if nothing has driven it.
-/
theorem driven_fold_rests [TimeScalar α] {m : Model α} {s : Script α}
    {production : Production α} (h : s.produce timing m = .ok production) {t : α} {f : Frame α}
    (hframe : production.timeline.frame t = .ok f) :
    ∃ fig, m.figure = .ok fig ∧
    (∃ front p back, s.performances timing m = front ++ p :: back ∧
      production.timeline.segmentPlaying t = .ok p.segment) ∧
    ∀ front p back, s.performances timing m = front ++ p :: back →
      production.timeline.segmentPlaying t = .ok p.segment →
      ∀ fold ∈ m.folds, ∀ q ∈ m.parameters, fold.angleParam = some q.id →
        ⟨.angle, fold.id⟩ ∉ channelsUpTo m (front ++ [p]) →
        (Stage.initial m).angles.get? fold.id = some (fig.angle f.setting fold) ∧
        (∃ x, f.parameters.get? q.id = some x ∧ (fig.angle f.setting fold = x ↔
          (Stage.initial m).angles.get? fold.id = some x)) ∧
        ((m.folds.map Fold.id).Nodup → (m.parameters.map Parameter.id).Nodup →
          fig.angle f.setting fold = q.initial ∧
          (⟨.parameter, q.id⟩ ∉ channelsUpTo m (front ++ [p]) →
            f.parameters.get? q.id = some q.initial)) := by
  obtain ⟨fig, hfig⟩ := exists_figure_of_produce h
  refine ⟨fig, hfig, exists_split_of_frame h hframe, ?_⟩
  intro front p back hsplit hplaying fold hfold q hq hdriven hrests
  have hkeeps := frame_keeps_initial hsplit hplaying hframe
  have hcovers : f.setting.Covers m := covers_of_frame h hframe
  have hangle : (Stage.initial m).angles.get? fold.id = some (fig.angle f.setting fold) := by
    obtain ⟨x, hx⟩ := Option.isSome_iff_exists.mp (hcovers.angles fold hfold)
    rw [Figure.angle_of_get? hx, ← hkeeps.angles fold.id hrests]
    exact hx
  refine ⟨hangle, ?_, ?_⟩
  · obtain ⟨x, hx⟩ := Option.isSome_iff_exists.mp (hcovers.parameters q hq)
    refine ⟨x, hx, ?_⟩
    rw [hangle, Option.some_inj]
  · intro hfolds hparameters
    have hinitial : m.initialAngle fold = q.initial := by
      have hfind : m.parameter? q.id = some q := find?_name_of_mem hparameters hq
      rw [Model.initialAngle, hdriven, Option.bind_some, hfind]
    rw [Stage.get?_angles_initial_of_mem hfolds hfold, hinitial] at hangle
    refine ⟨(Option.some_inj.mp hangle).symm, fun huntouched => ?_⟩
    rw [hkeeps.parameters q.id huntouched]
    exact Stage.get?_parameters_initial_of_mem hparameters hq

/-- The fold of the square whose point slides. -/
def turnFold : Fold Float := ⟨"turn", ("B", "D"), ["A"], ["E"], some "t", none⟩

/-- A script in which nothing happens. -/
def pausingScript : Script Float := ⟨"", [⟨"pause", "", Camera.standard, [], none⟩]⟩

/-- A script that moves a point to the end of its segment by the parameter of the fold. -/
def drivingScript : Script Float :=
  ⟨"", [⟨"driving", "", Camera.standard, [.step (.animatePoint "P" 0 1 none)], none⟩]⟩

theorem driven_fold_rests_driving :
    (∃ production f fig,
      drivingScript.produce Timing.usual Figure.drivenSquare = .ok production ∧
      production.timeline.frame 1.5 = .ok f ∧ Figure.drivenSquare.figure = .ok fig ∧
      fig.angle f.setting turnFold = 0.5) ∧
    ∃ production f,
      pausingScript.produce Timing.usual Figure.drivenSquare = .ok production ∧
      production.timeline.frame 0.25 = .ok f ∧ f.parameters.get? "t" = some 0.5 := by
  have hfold : turnFold ∈ (Figure.drivenSquare : Model Float).folds := List.mem_cons_self
  have hq : ⟨"t", 0, 1, 0.5⟩ ∈ (Figure.drivenSquare : Model Float).parameters :=
    List.mem_cons_self
  have hfolds : ((Figure.drivenSquare : Model Float).folds.map Fold.id).Nodup := by decide
  have hparameters : ((Figure.drivenSquare : Model Float).parameters.map Parameter.id).Nodup := by
    decide
  constructor
  · have hrun : (drivingScript.produce Timing.usual Figure.drivenSquare).toOption.isSome =
        true := by
      decide +kernel
    obtain ⟨production, hproduce⟩ := Option.isSome_iff_exists.mp hrun
    have hproduce := eq_ok_of_toOption hproduce
    obtain ⟨f, hframe⟩ := exists_frame_of_produce (List.cons_ne_nil _ _) hproduce 1.5
    obtain ⟨fig, hfig, ⟨front, p, back, hsplit, hplaying⟩, hdriven⟩ :=
      driven_fold_rests hproduce hframe
    have hrests : ⟨.angle, "turn"⟩ ∉ channelsUpTo Figure.drivenSquare (front ++ [p]) :=
      notMem_channelsUpTo hproduce hsplit (by decide)
    obtain ⟨-, -, hdistinct⟩ := hdriven front p back hsplit hplaying _ hfold _ hq rfl hrests
    exact ⟨production, f, fig, hproduce, hframe, hfig, (hdistinct hfolds hparameters).1⟩
  · have hrun : (pausingScript.produce Timing.usual Figure.drivenSquare).toOption.isSome =
        true := by
      decide +kernel
    obtain ⟨production, hproduce⟩ := Option.isSome_iff_exists.mp hrun
    have hproduce := eq_ok_of_toOption hproduce
    obtain ⟨f, hframe⟩ := exists_frame_of_produce (List.cons_ne_nil _ _) hproduce 0.25
    obtain ⟨fig, -, ⟨front, p, back, hsplit, hplaying⟩, hdriven⟩ :=
      driven_fold_rests hproduce hframe
    have hrests : ⟨.angle, "turn"⟩ ∉ channelsUpTo Figure.drivenSquare (front ++ [p]) :=
      notMem_channelsUpTo hproduce hsplit (by decide)
    have huntouched : ⟨.parameter, "t"⟩ ∉ channelsUpTo Figure.drivenSquare (front ++ [p]) :=
      notMem_channelsUpTo hproduce hsplit (by decide)
    obtain ⟨-, -, hdistinct⟩ := hdriven front p back hsplit hplaying _ hfold _ hq rfl hrests
    exact ⟨production, f, hproduce, hframe, (hdistinct hfolds hparameters).2 huntouched⟩

/-- While the point moves the fold stays, though one parameter drives both. -/
theorem exists_driven_fold_at_rest :
    ∃ production f fig,
      drivingScript.produce Timing.usual Figure.drivenSquare = .ok production ∧
      turnFold ∈ (Figure.drivenSquare : Model Float).folds ∧ turnFold.angleParam = some "t" ∧
      "t" ∈ (Figure.drivenSquare : Model Float).parameters.map Parameter.id ∧
      (∀ scene ∈ drivingScript.scenes,
        ⟨.angle, turnFold.id⟩ ∉ scene.channels Figure.drivenSquare) ∧
      production.timeline.frame 3.0 = .ok f ∧ Figure.drivenSquare.figure = .ok fig ∧
      f.parameters.get? "t" = some 1.0 ∧ fig.angle f.setting turnFold = 0.5 ∧
      (1.0 : Float) ≠ 0.5 := by
  have hrun : ((drivingScript.produce Timing.usual Figure.drivenSquare).toOption.bind
      fun production => (production.timeline.frame 3.0).toOption.bind fun f =>
        Figure.drivenSquare.figure.toOption.map fun fig =>
          decide (f.parameters.get? "t" = some 1.0 ∧
            fig.angle f.setting turnFold = 0.5)) = some true := by
    decide +kernel
  obtain ⟨production, hproduce, hrun⟩ := Option.bind_eq_some_iff.mp hrun
  obtain ⟨f, hframe, hrun⟩ := Option.bind_eq_some_iff.mp hrun
  obtain ⟨fig, hfig, hrun⟩ := Option.map_eq_some_iff.mp hrun
  obtain ⟨hparameter, hangle⟩ := of_decide_eq_true hrun
  exact ⟨production, f, fig, eq_ok_of_toOption hproduce, List.mem_cons_self, rfl,
    List.mem_cons_self, by decide, eq_ok_of_toOption hframe, eq_ok_of_toOption hfig, hparameter,
    hangle, by decide⟩

end Script

end Storyboard
