import Storyboard.Proofs.Figure.Standstill
import Storyboard.Proofs.Timeline.Alike

/-!
# Exchanging members of a group

The members of a group start together, so that nothing but the order of their cues
changes when two neighbours change places: the group takes as long as before, and all
that follows starts when it did.  If the two write to no common channel, then on each
channel the same cues write in the same order as before, and the whole script plays
alike.
-/

namespace Storyboard

/-! ## The length of a group -/

section Length

variable {α : Type} [Scalar α] [TimeScalar α]

open LawfulScalar TimeScalar

/-- Of several lengths of time the largest is the same in whatever order they come. -/
theorem Scalar.larger_right_comm {x y z : α} (hx : 0 ≤ x) (hy : y ≤ y) (hz : z ≤ z) :
    larger (larger x y) z = larger (larger x z) y := by
  have htrans : ∀ {u v w : α}, u < v → v < w → u < w :=
    fun huv hvw => lt_of_lt_of_le huv (lt_iff.mp hvw).1
  by_cases hxy : x < y
  · by_cases hxz : x < z
    · unfold larger
      rw [if_pos hxy, if_pos hxz]
      split_ifs with hyz hzy hzy
      · exact absurd (lt_iff.mp hzy).1 (lt_iff.mp hyz).2
      · rfl
      · rfl
      · -- neither exceeds the other, and so they are the same, both being above zero
        have hpos : 0 < y :=
          lt_iff.mpr ⟨le_trans hx (lt_iff.mp hxy).1, fun h => (lt_iff.mp hxy).2 (le_trans h hx)⟩
        exact le_antisymm hpos (le_of_not_lt hy hz hzy) (le_of_not_lt hz hy hyz)
    · have hyz : ¬ y < z := fun hyz => hxz (htrans hxy hyz)
      unfold larger
      rw [if_pos hxy, if_neg hyz, if_neg hxz, if_pos hxy]
  · by_cases hxz : x < z
    · have hzy : ¬ z < y := fun hzy => hxy (htrans hxz hzy)
      unfold larger
      rw [if_neg hxy, if_pos hxz, if_neg hzy]
    · unfold larger
      rw [if_neg hxy, if_neg hxz, if_neg hxy]

namespace Action

/-- A group takes as long as it does when two neighbours in it change places. -/
theorem longest_exchange (front back : List (Action α)) (x y : Action α) :
    longest 0 (front ++ y :: x :: back) = longest 0 (front ++ x :: y :: back) := by
  have hfront : 0 ≤ longest 0 front := le_longest zero_le_zero front
  have hx : x.duration ≤ x.duration := right_defined x.duration_nonneg
  have hy : y.duration ≤ y.duration := right_defined y.duration_nonneg
  rw [longest_append, longest_append]
  simp only [longest]
  rw [Scalar.larger_right_comm hfront hy hx]

end Action

end Length

/-! ## Exchanges -/

/-- Lists of which one comes from the other as two neighbouring blocks change places. -/
inductive BlocksExchanged {β : Type} (apart : β → β → Prop) : List β → List β → Prop where
  | mk (front block block' back : List β) (h : ∀ a ∈ block, ∀ b ∈ block', apart a b) :
    BlocksExchanged apart (front ++ (block ++ block') ++ back) (front ++ (block' ++ block) ++ back)

/--
An action in which two neighbours in a group, at any depth, have changed places.  They
write to no common channel, and so they do not create elements of the same name either,
since creating an element writes to its visibility.
-/
inductive Action.Exchanged {α : Type} (m : Model α) : Action α → Action α → Prop where
  | here (front back : List (Action α)) (x y : Action α)
      (h : List.Disjoint (x.channels m) (y.channels m)) :
    Exchanged m (.together (front ++ x :: y :: back)) (.together (front ++ y :: x :: back))
  | inside (front back : List (Action α)) {a a' : Action α} (h : Exchanged m a a') :
    Exchanged m (.together (front ++ a :: back)) (.together (front ++ a' :: back))

/-- A script in which two neighbours in a group of one of its scenes have changed places. -/
inductive Script.Exchanged {α : Type} (m : Model α) : Script α → Script α → Prop where
  | mk (title : String) (before after : List (Scene α)) (scene : Scene α)
      (front back : List (Action α)) {a a' : Action α} (h : a.Exchanged m a') :
    Exchanged m
      ⟨title, before ++ { scene with actions := front ++ a :: back } :: after⟩
      ⟨title, before ++ { scene with actions := front ++ a' :: back } :: after⟩

theorem BlocksExchanged.append {β : Type} {apart : β → β → Prop} {l l' : List β}
    (h : BlocksExchanged apart l l') (front back : List β) :
    BlocksExchanged apart (front ++ l ++ back) (front ++ l' ++ back) := by
  obtain ⟨front', block, block', back', hapart⟩ := h
  have hwider := BlocksExchanged.mk (front ++ front') block block' (back' ++ back) hapart
  simpa only [List.append_assoc] using hwider

namespace Action

variable {α : Type}

namespace Exchanged

variable {m : Model α} {a a' : Action α}

/-- An action in which neighbours change places takes as long as before. -/
theorem duration [Scalar α] [TimeScalar α] (h : a.Exchanged m a') : a'.duration = a.duration := by
  induction h with
  | here front back x y _ =>
      rw [Action.duration, Action.duration, longest_exchange]
  | inside front back _ ih =>
      rw [Action.duration, Action.duration, longest_append, longest_append, longest, longest, ih]

/-- The steps of the neighbours change places, and all steps start when they did. -/
theorem timed (h : a.Exchanged m a') (start : α) :
    BlocksExchanged (fun e e' : TimedStep α => List.Disjoint (e.2.channels m) (e'.2.channels m))
      (a.timed start) (a'.timed start) := by
  induction h with
  | here front back x y hapart =>
      have hblocks : ∀ e ∈ x.timed start, ∀ e' ∈ y.timed start,
          List.Disjoint (e.2.channels m) (e'.2.channels m) := by
        intro e he e' he' c hc hc'
        exact hapart ((mem_channels start x).mpr ⟨e, he, hc⟩)
          ((mem_channels start y).mpr ⟨e', he', hc'⟩)
      have hsteps :=
        BlocksExchanged.mk (timedTogether start front) _ _ (timedTogether start back) hblocks
      simpa only [Action.timed, timedTogether_append, timedTogether, List.append_assoc]
        using hsteps
  | inside front back _ ih =>
      have hsteps := ih.append (timedTogether start front) (timedTogether start back)
      simpa only [Action.timed, timedTogether_append, timedTogether, List.append_assoc]
        using hsteps

end Exchanged

end Action

/-! ## The cues of a scene -/

section Cues

variable {α : Type}

/-- On each channel one of two blocks that are apart has no say. -/
theorem cuesAlike_of_blocks {front block block' back : List (Cue α)}
    (h : ∀ a ∈ block, ∀ b ∈ block', List.Disjoint a.effect.channels b.effect.channels) :
    CuesAlike (front ++ (block ++ block') ++ back) (front ++ (block' ++ block) ++ back) := by
  intro c
  have hnone : cuesOn c block = [] ∨ cuesOn c block' = [] := by
    by_contra hboth
    rw [not_or] at hboth
    obtain ⟨a, ha⟩ := List.exists_mem_of_ne_nil _ hboth.1
    obtain ⟨b, hb⟩ := List.exists_mem_of_ne_nil _ hboth.2
    obtain ⟨hmem, hc⟩ := List.mem_filter.mp ha
    obtain ⟨hmem', hc'⟩ := List.mem_filter.mp hb
    exact h a hmem b hmem' (of_decide_eq_true hc) (of_decide_eq_true hc')
  unfold cuesOn at hnone ⊢
  simp only [List.filter_append]
  rcases hnone with hnone | hnone
  · rw [hnone, List.nil_append, List.append_nil]
  · rw [hnone, List.nil_append, List.append_nil]

/-- Steps that have changed places without a common channel have cues that are alike. -/
theorem exists_cues_of_exchanged [Scalar α] {m : Model α} {scene : String}
    {steps steps' : List (TimedStep α)}
    (h : BlocksExchanged (fun e e' : TimedStep α =>
      List.Disjoint (e.2.channels m) (e'.2.channels m)) steps steps')
    {cues : List (Cue α)} (hcues : untilError (steps.map (Step.cue m scene)) = (cues, none)) :
    ∃ cues', untilError (steps'.map (Step.cue m scene)) = (cues', none) ∧ CuesAlike cues cues' := by
  obtain ⟨front, block, block', back, hapart⟩ := h
  rw [untilError_eq_none_iff, eq_comm] at hcues
  simp only [List.map_append, List.map_eq_append_iff] at hcues
  obtain ⟨_, back₁, rfl, ⟨front₁, _, rfl, hfront, block₁, block₁', rfl, hblock, hblock'⟩, hback⟩ :=
    hcues
  have hstep : ∀ {block : List (TimedStep α)} {cues : List (Cue α)},
      cues.map Except.ok = block.map (Step.cue m scene) →
      ∀ cue ∈ cues, ∃ e ∈ block, cue.effect.channels = e.2.channels m := by
    intro block cues hmap cue hcue
    have hmem : Except.ok cue ∈ block.map (Step.cue m scene) := by
      rw [← hmap]
      exact List.mem_map_of_mem hcue
    obtain ⟨e, he, hok⟩ := List.mem_map.mp hmem
    exact ⟨e, he, Step.channels_of_effect (Step.cue_eq_ok hok).2.2⟩
  refine ⟨front₁ ++ (block₁' ++ block₁) ++ back₁, ?_, cuesAlike_of_blocks ?_⟩
  · rw [untilError_eq_none_iff]
    simp only [List.map_append, hfront, hblock, hblock', hback]
  · intro cue hcue cue' hcue'
    obtain ⟨e, he, hchannels⟩ := hstep hblock cue hcue
    obtain ⟨e', he', hchannels'⟩ := hstep hblock' cue' hcue'
    rw [hchannels, hchannels']
    exact hapart e he e' he'

/-- A scene accords with what it becomes when neighbours in a group change places. -/
theorem Scene.accords_of_exchanged [Scalar α] [TimeScalar α] {m : Model α} (scene : Scene α)
    (front back : List (Action α)) {a a' : Action α} (h : a.Exchanged m a') :
    Scene.Accords m { scene with actions := front ++ a :: back }
      { scene with actions := front ++ a' :: back } where
  id := rfl
  narration := rfl
  camera := rfl
  measurements := rfl
  ending := by
    simp only [Action.endInTurn, List.foldl_append, List.foldl_cons, h.duration]
  cues := by
    intro cues hcues
    refine exists_cues_of_exchanged ?_ hcues
    have hsteps := (h.timed (Action.endInTurn 0 front)).append (Action.timedInTurn 0 front)
      (Action.timedInTurn (Action.endInTurn 0 front + a.duration) back)
    simpa only [Scene.timedSteps, Action.timedInTurn_append, Action.timedInTurn, h.duration,
      List.append_assoc] using hsteps

end Cues

namespace Script

/--
When two neighbours in a group that write to no common channel change places, a script
that can be produced still can.  Its scenes have the same times and the same camera,
the same elements are registered, and at every time there is the same to be seen.
-/
theorem produce_of_exchanged {α : Type} [Analytic α] [TimeScalar α] {timing : Timing α}
    {m : Model α} {s s' : Script α} (hexchanged : s.Exchanged m s') {production : Production α}
    (h : s.produce timing m = .ok production) :
    ∃ production', s'.produce timing m = .ok production' ∧ production.Alike production' ∧
      ∀ t, ∃ f f', production.timeline.frame t = .ok f ∧
        production'.timeline.frame t = .ok f' ∧ f.Alike f' := by
  have hscenes : s.scenes ≠ [] := by
    obtain ⟨title, before, after, scene, front, back, -⟩ := hexchanged
    exact List.append_ne_nil_of_right_ne_nil _ (List.cons_ne_nil _ _)
  have haccords : List.Forall₂ (Scene.Accords m) s.scenes s'.scenes := by
    obtain ⟨title, before, after, scene, front, back, haction⟩ := hexchanged
    have hsame : ∀ scenes : List (Scene α), List.Forall₂ (Scene.Accords m) scenes scenes :=
      fun scenes => List.forall₂_same.mpr fun other _ => Scene.Accords.refl m other
    exact List.rel_append (hsame before)
      (.cons (Scene.accords_of_exchanged scene front back haction) (hsame after))
  obtain ⟨production', h', halike⟩ : ∃ production', s'.produce timing m = .ok production' ∧
      production.Alike production' := by
    obtain ⟨fig, hfig⟩ := exists_figure_of_produce h
    obtain rfl := Model.model_of_figure hfig
    rw [produce, hfig] at h ⊢
    exact produceFrom_of_accords haccords (fun _ => rfl) (fun _ => rfl) h
  refine ⟨production', h', halike, fun t => ?_⟩
  obtain ⟨f, hframe⟩ := exists_frame_of_produce hscenes h t
  have hnodup : ∀ segment ∈ production.timeline.segments,
      (segment.tracks.map Track.channel).Nodup := by
    intro segment hmem
    rw [(segments_of_produce h).2] at hmem
    obtain ⟨p, hp, rfl⟩ := List.mem_map.mp hmem
    obtain ⟨fig, -, hproduce⟩ := produce_of_mem_performances hp
    exact Scene.nodup_channels_of_produce hproduce
  obtain ⟨f', hframe', hsame⟩ := halike.frame hnodup hframe
  exact ⟨f, f', hframe, hframe', hsame⟩

/-- A corner fades out while a plane is drawn through it. -/
def fadingAndDrawing : Action Float :=
  .together [.step (.fadeOut "A" none),
    .step (.create (some "floor") none (.plane ["A", "B", "C"] none))]

/-- A point slides along its edge. -/
def sliding : Action Float := .step (.animatePoint "S" 0 1 none)

/-- Two actions play with a third; in the next scene the corner comes back. -/
def playingTogether (first second : Action Float) : Script Float :=
  ⟨"", [
    ⟨"together", "", Camera.standard, [.together [.step (.reveal "D"), first, second]], none⟩,
    ⟨"back", "", Camera.standard, [.step (.fadeIn "A" none)], none⟩]⟩

theorem produce_of_exchanged_sliding :
    (playingTogether fadingAndDrawing sliding).Exchanged Figure.slidingCube
      (playingTogether sliding fadingAndDrawing) ∧
    ∃ production production',
      (playingTogether fadingAndDrawing sliding).produce Timing.usual Figure.slidingCube =
        .ok production ∧
      (playingTogether sliding fadingAndDrawing).produce Timing.usual Figure.slidingCube =
        .ok production' ∧
      production.Alike production' ∧
      ∀ t, ∃ f f', production.timeline.frame t = .ok f ∧
        production'.timeline.frame t = .ok f' ∧ f.Alike f' := by
  have hapart : ∀ c ∈ fadingAndDrawing.channels Figure.slidingCube,
      c ∉ sliding.channels Figure.slidingCube := by decide +kernel
  have hexchanged : (playingTogether fadingAndDrawing sliding).Exchanged Figure.slidingCube
      (playingTogether sliding fadingAndDrawing) :=
    .mk "" [] _ ⟨"together", "", Camera.standard, [], none⟩ [] []
      (.here [.step (.reveal "D")] [] fadingAndDrawing sliding hapart)
  have hrun : ((playingTogether fadingAndDrawing sliding).produce Timing.usual
      Figure.slidingCube).toOption.isSome = true := by decide +kernel
  obtain ⟨production, hproduce⟩ := Option.isSome_iff_exists.mp hrun
  obtain ⟨production', hproduce', halike, hframes⟩ :=
    produce_of_exchanged hexchanged (eq_ok_of_toOption hproduce)
  exact ⟨hexchanged, production, production', eq_ok_of_toOption hproduce, hproduce', halike,
    hframes⟩

end Script

end Storyboard
