import Storyboard.Proofs.Figure.Standstill
import Storyboard.Proofs.Figure.Values
import Storyboard.Proofs.Timeline.Highlights
import Storyboard.Proofs.Timeline.WellFormed

/-!
# Frames that need nothing but themselves

The first stage has a value for each parameter and an angle for each fold of the
model.  No cue takes a number away, so that every stage that is handed on has them as
well.  A scene opens with keyframes for them at its very start, and no cue writes
anything earlier.  So there is always a keyframe that is due, and every frame gives all
the numbers that points and measurements are located by.
-/

namespace Storyboard

open Track

/-! ## Numbers that stay -/

/-- The channels of numbers. -/
def Channel.IsNumeric (c : Channel) : Prop := c.property ≠ .visibility ∧ c.property ≠ .highlight

theorem Channel.isSome_update {α : Type} {c : Channel} {v : KeyValue α} (hc : c.IsNumeric)
    (hv : c.Takes v) : (c.update none v).isSome = true := by
  obtain ⟨property, target⟩ := c
  cases property with
  | visibility => exact absurd rfl hc.1
  | highlight => exact absurd rfl hc.2
  | opacity | parameter | angle =>
      obtain ⟨x, rfl⟩ := hv
      rfl

namespace Cue

variable {α : Type} [Scalar α]

/-- But for highlights, a cue writes when it starts and when it ends. -/
theorem time_eq_of_mem_writes {stage : Stage α} {cue : Cue α} {w : Write α}
    (hc : w.1.property ≠ .highlight) (h : w ∈ cue.writes stage) :
    w.2.time = cue.start ∨ w.2.time = cue.finish := by
  unfold writes at h
  split at h
  case h_5 =>
      obtain rfl := List.mem_singleton.mp h
      exact absurd rfl hc
  case h_6 =>
      obtain ⟨k, -, rfl⟩ := List.mem_map.mp h
      exact absurd rfl hc
  case h_7 element _ =>
      rcases List.mem_cons.mp h with rfl | h
      · exact Or.inr rfl
      · obtain ⟨opacity, -, rfl⟩ := List.mem_map.mp h
        exact Or.inr rfl
  case h_10 => exact absurd h List.not_mem_nil
  all_goals
    simp only [List.mem_cons, List.not_mem_nil, or_false] at h
    rcases h with rfl | rfl | rfl <;>
      simp [Keyframe.flag, Keyframe.number, Keyframe.eased]

end Cue

theorem Stage.isSome_value?_follow {α : Type} [Scalar α] {stage : Stage α} {c : Channel}
    (hc : c.IsNumeric) (h : (stage.value? c).isSome = true) (cues : List (Cue α)) :
    ((stage.follow cues).1.value? c).isSome = true := by
  rw [value?_follow]
  cases hlast : (leavings c cues).getLast? with
  | none => exact h
  | some mark =>
      have hfits : c.Fits mark.2 := fits_of_mem_leavings (List.mem_of_getLast? hlast)
      obtain ⟨property, target⟩ := c
      cases property with
      | visibility => exact absurd rfl hc.1
      | highlight => exact absurd rfl hc.2
      | opacity | parameter | angle => exact Channel.isSome_update hc hfits

namespace Scene

variable {α : Type} [Analytic α] [TimeScalar α] {timing : Timing α} {fig : Figure α} {start : α}
  {stage : Stage α} {registry : Registry α} {s : Scene α} {produced : Produced α}

/-- A number that the stage holds is shown in every frame of the scene. -/
theorem isSome_value?_frame (h : s.produce timing fig start stage registry = .ok produced)
    {c : Channel} (hc : c.IsNumeric) (hheld : (stage.value? c).isSome = true) (globalTime : α)
    {localTime : α} (hlocal : 0 ≤ localTime) :
    ((produced.segment.frame globalTime localTime).value? c).isSome = true := by
  obtain ⟨ws, htracks, hkeys⟩ := exists_writes_of_produce h
  obtain ⟨v, hv⟩ := Option.isSome_iff_exists.mp hheld
  have hstart : ∀ k ∈ keysOf c (stage.follow (s.cues fig.model)).2, 0 ≤ k.time := by
    intro k hk
    obtain ⟨cue, hcue, found, hw⟩ := Stage.mem_follow (mem_keysOf.mp hk)
    obtain ⟨hlow, hduration, -⟩ := cue_bounds hcue
    rcases Cue.time_eq_of_mem_writes hc.2 hw with htime | htime
    · exact hlow.trans_eq htime.symm
    · exact (TimeScalar.add_nonneg hlow hduration).trans_eq htime.symm
  have htakes : ∀ k ∈ keysOf c (stage.follow (s.cues fig.model)).2, c.Takes k.value := by
    intro k hk
    obtain ⟨cue, -, found, hw⟩ := Stage.mem_follow (mem_keysOf.mp hk)
    exact Cue.takes_of_mem_writes hw
  have hfirst : arrange (keysOf c ws) =
      ⟨0, v, none⟩ :: arrange (keysOf c (stage.follow (s.cues fig.model)).2) := by
    rw [hkeys c hc.2, hv]
    exact arrange_cons hstart
  have hdue : (Keyframe.valueAt? (arrange (keysOf c ws)).toArray localTime).isSome = true := by
    rw [hfirst]
    exact Keyframe.isSome_valueAt? hlocal
  obtain ⟨w, hw⟩ := Option.isSome_iff_exists.mp hdue
  rw [Segment.value?_frame _ (nodup_channels_of_produce h), sample?_of_tracks htracks, hw,
    Option.bind_some]
  refine Channel.isSome_update hc (Keyframe.takes_valueAt? ?_ hw)
  intro k hk
  rw [List.mem_toArray, hfirst] at hk
  rcases List.mem_cons.mp hk with rfl | hk
  · exact Stage.takes_of_value? hv
  · exact htakes k (mem_arrange.mp hk)

end Scene

/-! ## From the first stage on -/

namespace Stage

variable {α : Type} [Scalar α] {m : Model α}

theorem initial_holds_parameter {p : Parameter α} (hp : p ∈ m.parameters) :
    ((initial m).value? ⟨.parameter, p.id⟩).isSome = true := by
  have hget : ((initial m).parameters.get? p.id).isSome = true :=
    OrderedMap.isSome_get?_insertAll _ _ _ (Or.inr (by simpa using ⟨p, hp, rfl⟩))
  rw [value?, Option.isSome_map]
  exact hget

theorem initial_holds_angle {f : Fold α} (hf : f ∈ m.folds) :
    ((initial m).value? ⟨.angle, f.id⟩).isSome = true := by
  have hget : ((initial m).angles.get? f.id).isSome = true :=
    OrderedMap.isSome_get?_insertAll _ _ _ (Or.inr (by simpa using ⟨f, hf, rfl⟩))
  rw [value?, Option.isSome_map]
  exact hget

end Stage

namespace Script

section Stages

variable {α : Type} [Analytic α] {timing : Timing α}

/-- A number that is held when some scenes begin is held when each of them begins. -/
theorem isSome_value?_of_mem_performFrom {fig : Figure α} {start : α} {stage : Stage α}
    {registry : Registry α} {scenes : List (Scene α)} {c : Channel} (hc : c.IsNumeric)
    (hheld : (stage.value? c).isSome = true) :
    ∀ p ∈ performFrom timing fig start stage registry scenes,
      (p.stage.value? c).isSome = true := by
  induction scenes generalizing start stage registry with
  | nil => exact List.forall_mem_nil _
  | cons s rest ih =>
      rw [performFrom]
      split
      next => exact List.forall_mem_nil _
      next produced hproduce =>
        obtain ⟨-, -, -, -, hstage, -⟩ := Scene.produce_eq_ok hproduce
        refine List.forall_mem_cons.mpr ⟨hheld, ih ?_⟩
        rw [hstage]
        exact Stage.isSome_value?_follow hc hheld _

theorem isSome_value?_of_mem_performances {m : Model α} {s : Script α} {c : Channel}
    (hc : c.IsNumeric) (hheld : ((Stage.initial m).value? c).isSome = true) :
    ∀ p ∈ s.performances timing m, (p.stage.value? c).isSome = true := by
  unfold performances
  split
  · exact List.forall_mem_nil _
  · exact isSome_value?_of_mem_performFrom hc hheld

end Stages

variable {α : Type} [Analytic α] [TimeScalar α] {timing : Timing α} {m : Model α} {s : Script α}
  {production : Production α}

/-- Every frame gives all the parameters and all the angles of the model. -/
theorem covers_of_frame (h : s.produce timing m = .ok production) {t : α} {f : Frame α}
    (hframe : production.timeline.frame t = .ok f) : f.setting.Covers m := by
  obtain ⟨segment, hmem, -, hf⟩ := Timeline.frame_eq_ok hframe
  rw [(segments_of_produce h).2] at hmem
  obtain ⟨p, hp, rfl⟩ := List.mem_map.mp hmem
  have hshown : ∀ c : Channel, c.IsNumeric → ((Stage.initial m).value? c).isSome = true →
      (f.value? c).isSome = true := by
    intro c hc hheld
    obtain ⟨fig, -, hproduce⟩ := produce_of_mem_performances hp
    rw [hf]
    exact Scene.isSome_value?_frame hproduce hc
      (isSome_value?_of_mem_performances hc hheld p hp) _ (timeWithin_bounds _ _).1
  constructor
  · intro q hq
    have hsome := hshown ⟨.parameter, q.id⟩ ⟨by simp, by simp⟩ (Stage.initial_holds_parameter hq)
    rwa [Frame.value?, Option.isSome_map] at hsome
  · intro fold hfold
    have hsome := hshown ⟨.angle, fold.id⟩ ⟨by simp, by simp⟩ (Stage.initial_holds_angle hfold)
    rwa [Frame.value?, Option.isSome_map] at hsome

/--
There is a frame for every time, and it gives a value for each parameter and an angle
for each fold of the model.  They are the ones that the points and the measurements of
the frame go by: none of them misses a declared parameter, and none of them would be
different if the model declared other initial values or other angles.
-/
theorem frames_selfContained (hscenes : s.scenes ≠ []) (h : s.produce timing m = .ok production)
    (t : α) :
    ∃ f fig, production.timeline.frame t = .ok f ∧ m.figure = .ok fig ∧
      f.setting.Covers m ∧
      (∀ p ∈ m.parameters, f.parameters.get? p.id = fig.parameter? f.setting p.id) ∧
      (∀ fold ∈ m.folds, f.angles.get? fold.id = some (fig.angle f.setting fold)) ∧
      ∀ id, (∀ p ∈ m.parameters, fig.locate f.setting id ≠ .error (.unknownParameter p.id) ∧
          fig.measure f.setting id ≠ .error (.unknownParameter p.id)) ∧
        ∀ initial angleParam defaultAngle,
          (fig.reset initial angleParam defaultAngle).locate f.setting id =
            fig.locate f.setting id ∧
          (fig.reset initial angleParam defaultAngle).measure f.setting id =
            fig.measure f.setting id := by
  obtain ⟨fig, hfig⟩ := exists_figure_of_produce h
  obtain ⟨f, hframe⟩ := exists_frame_of_produce hscenes h t
  have hcovers : f.setting.Covers m := covers_of_frame h hframe
  have hparameters : ∀ p ∈ m.parameters,
      ∃ x, f.parameters.get? p.id = some x ∧ fig.parameter? f.setting p.id = some x := by
    intro p hp
    obtain ⟨x, hx⟩ := Option.isSome_iff_exists.mp (hcovers.parameters p hp)
    exact ⟨x, hx, Figure.parameter?_of_get? hx⟩
  refine ⟨f, fig, hframe, hfig, hcovers, ?_, ?_, ?_⟩
  · intro p hp
    obtain ⟨x, hx, hx'⟩ := hparameters p hp
    rw [hx, hx']
  · intro fold hfold
    obtain ⟨x, hx⟩ := Option.isSome_iff_exists.mp (hcovers.angles fold hfold)
    rw [Figure.angle_of_get? hx]
    exact hx
  · intro id
    constructor
    · intro p hp
      obtain ⟨x, -, hx⟩ := hparameters p hp
      refine ⟨fun hfail => ?_, fun hfail => ?_⟩
      · rw [Figure.parameter?_of_locate hfail] at hx
        cases hx
      · rw [Figure.parameter?_of_measure hfail] at hx
        cases hx
    · intro initial angleParam defaultAngle
      obtain rfl := Model.model_of_figure hfig
      have hsame := Figure.sameValues_reset hcovers initial angleParam defaultAngle
      exact ⟨hsame.locate id, hsame.measure id⟩

/-- A point slides along its edge while a face is turned; then there is a pause. -/
def slidingScript : Script Float :=
  ⟨"", [
    ⟨"sliding", "", Camera.standard,
      [.together [.step (.animatePoint "S" 0 1 none), .step (.fold "turn" none none none)]], none⟩,
    ⟨"pause", "", Camera.standard, [], none⟩]⟩

theorem frames_selfContained_sliding :
    ∃ production f fig, slidingScript.scenes ≠ [] ∧
      slidingScript.produce Timing.usual Figure.slidingCube = .ok production ∧
      production.timeline.frame 1.0 = .ok f ∧ Figure.slidingCube.figure = .ok fig ∧
      (f.parameters.get? "t").isSome = true ∧ (f.angles.get? "turn").isSome = true ∧
      fig.locate f.setting "S" ≠ .error (.unknownParameter "t") := by
  have hrun : (slidingScript.produce Timing.usual Figure.slidingCube).toOption.isSome = true := by
    decide +kernel
  obtain ⟨production, hproduce⟩ := Option.isSome_iff_exists.mp hrun
  have hscenes : slidingScript.scenes ≠ [] := List.cons_ne_nil _ _
  obtain ⟨f, fig, hframe, hfig, hcovers, -, -, hpoints⟩ :=
    frames_selfContained hscenes (eq_ok_of_toOption hproduce) 1.0
  exact ⟨production, f, fig, hscenes, eq_ok_of_toOption hproduce, hframe, hfig,
    hcovers.parameters _ List.mem_cons_self, hcovers.angles _ List.mem_cons_self,
    ((hpoints "S").1 _ List.mem_cons_self).1⟩

end Script

end Storyboard
