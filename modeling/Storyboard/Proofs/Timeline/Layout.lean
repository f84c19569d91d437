import Storyboard.Proofs.Number.Order
import Storyboard.Proofs.Timeline.Performance
import Storyboard.Timeline.Frame

/-!
# The layout of a timeline

The segments of a produced script fill the time from zero up to the duration of the
timeline, one after the other and each for a while.  Hence every time in range falls
into exactly one of them, and that is the one the look from the first to the last
finds.  A time out of range is first brought into it; this works in double precision
as well, whatever the numbers of the timeline are.
-/

namespace Storyboard

/-! ## Bringing a time into range -/

section Range

variable {α : Type} [Scalar α] [LawfulScalar α]

open LawfulScalar

theorem timeWithin_bounds (max t : α) :
    0 ≤ timeWithin max t ∧ timeWithin max t ≤ Scalar.nonNegative max := by
  have hmax : 0 ≤ Scalar.nonNegative max := Scalar.zero_le_nonNegative max
  have hdefined := right_defined hmax
  unfold timeWithin Scalar.confine
  split
  next h => exact ⟨zero_le_zero, hmax⟩
  next h =>
    have ht : t ≤ t := by simpa [Scalar.isUndefined] using h
    unfold Scalar.clamp
    split
    next hlow => exact ⟨zero_le_zero, hmax⟩
    next hlow =>
      split
      next hhigh => exact ⟨hmax, hdefined⟩
      next hhigh =>
        exact ⟨Scalar.le_of_not_lt zero_le_zero ht hlow, Scalar.le_of_not_lt ht hdefined hhigh⟩

/-- A time that is in range stays as it is. -/
theorem timeWithin_of_le {max t : α} (hlow : 0 ≤ t) (hhigh : t ≤ Scalar.nonNegative max) :
    timeWithin max t = t := by
  have hdefined : Scalar.isUndefined t = false := by
    simpa [Scalar.isUndefined] using right_defined hlow
  rw [timeWithin, Scalar.confine, if_neg (Bool.eq_false_iff.mp hdefined), Scalar.clamp,
    if_neg (Scalar.not_lt_of_le hlow), if_neg (Scalar.not_lt_of_le hhigh)]

theorem timeWithin_self {t : α} (h : 0 ≤ t) : timeWithin t t = t :=
  timeWithin_of_le h (Scalar.le_nonNegative (right_defined h))

/-- What lies above zero is reached in a range exactly if the range goes so far. -/
theorem le_timeWithin_self_iff {max t : α} (h : 0 < t) : t ≤ timeWithin max max ↔ t ≤ max := by
  constructor
  · intro hle
    have hmax : t ≤ Scalar.nonNegative max := le_trans hle (timeWithin_bounds max max).2
    unfold Scalar.nonNegative Scalar.larger at hmax
    split_ifs at hmax with hpos
    · exact hmax
    · exact absurd hmax (lt_iff.mp h).2
  · intro hle
    rw [timeWithin_self (le_trans (lt_iff.mp h).1 hle)]
    exact hle

theorem timeWithin_timeWithin (max t : α) :
    timeWithin max (timeWithin max t) = timeWithin max t :=
  timeWithin_of_le (timeWithin_bounds max t).1 (timeWithin_bounds max t).2

end Range

/-- From the end of a range on every time is brought to the end. -/
theorem timeWithin_of_max_le {α : Type} [Scalar α] [TimeScalar α] {max t : α} (hmax : 0 < max)
    (h : max ≤ t) : timeWithin max t = max := by
  have hdefined : Scalar.isUndefined t = false := by
    simpa [Scalar.isUndefined] using LawfulScalar.right_defined h
  have hlow : ¬ t < 0 := Scalar.not_lt_of_le
    (LawfulScalar.le_trans (LawfulScalar.lt_iff.mp hmax).1 h)
  have hnonneg : Scalar.nonNegative max = max := if_pos hmax
  rw [timeWithin, Scalar.confine, if_neg (Bool.eq_false_iff.mp hdefined), Scalar.clamp,
    if_neg hlow, hnonneg]
  split_ifs with hhigh
  · rfl
  · exact (TimeScalar.le_antisymm hmax h (Scalar.le_of_not_lt (LawfulScalar.right_defined h)
      (LawfulScalar.left_defined h) hhigh)).symm

theorem timeWithin_eq_max_min {α : Type} [ExactScalar α] {max' : α} (h : 0 ≤ max') (t : α) :
    timeWithin max' t = max 0 (min t max') := by
  have hdefined : Scalar.isUndefined t = false := by simp [Scalar.isUndefined]
  rw [timeWithin, ExactScalar.nonNegative_eq_max, max_eq_right h, Scalar.confine,
    if_neg (Bool.eq_false_iff.mp hdefined), Scalar.clamp]
  split_ifs with hlow hhigh
  · exact (max_eq_left ((min_le_left _ _).trans hlow.le)).symm
  · rw [min_eq_right hhigh.le, max_eq_right h]
  · rw [min_eq_left (not_lt.mp hhigh), max_eq_right (not_lt.mp hlow)]

/-! ## Segments end to end -/

/-- A time falls within a segment from its start on and before its finish. -/
def Segment.Contains {α : Type} [Scalar α] (s : Segment α) (t : α) : Prop :=
  s.start ≤ t ∧ t < s.finish

/-- Segments that fill the time up to `finish` one after the other, each for a while. -/
def LaidOut {α : Type} [Scalar α] (finish : α) : α → List (Segment α) → Prop
  | start, [] => start = finish
  | start, s :: rest => s.start = start ∧ s.start < s.finish ∧ LaidOut finish s.finish rest

/-- A timeline whose segments run from zero to its duration, each where the one before it ends. -/
structure Timeline.IsLaidOut {α : Type} [Scalar α] (timeline : Timeline α) : Prop where
  head : ∀ s ∈ timeline.segments.head?, s.start = 0
  chain : timeline.segments.IsChain fun a b => b.start = a.finish
  lasting : ∀ s ∈ timeline.segments, s.start < s.finish
  duration : timeline.duration = (timeline.segments.getLast?.map Segment.finish).getD 0

namespace LaidOut

section Rows

variable {α : Type} [Scalar α] {start finish : α} {segments : List (Segment α)}

theorem isChain (h : LaidOut finish start segments) :
    segments.IsChain fun a b => b.start = a.finish := by
  induction segments generalizing start with
  | nil => exact List.isChain_nil
  | cons s rest ih =>
      obtain ⟨-, -, hrest⟩ := h
      refine List.isChain_cons.mpr ⟨?_, ih hrest⟩
      intro next hnext
      cases rest with
      | nil => cases hnext
      | cons s' rest =>
          cases hnext
          exact hrest.1

theorem lt_of_mem (h : LaidOut finish start segments) :
    ∀ s ∈ segments, s.start < s.finish := by
  induction segments generalizing start with
  | nil => exact List.forall_mem_nil _
  | cons s rest ih =>
      obtain ⟨-, hlt, hrest⟩ := h
      exact List.forall_mem_cons.mpr ⟨hlt, ih hrest⟩

theorem finish_eq (h : LaidOut finish start segments) :
    finish = (segments.getLast?.map Segment.finish).getD start := by
  induction segments generalizing start with
  | nil => exact h.symm
  | cons s rest ih =>
      obtain ⟨-, -, hrest⟩ := h
      rw [ih hrest, List.getLast?_cons]
      cases rest.getLast? <;> rfl

end Rows

section Times

variable {α : Type} [ExactScalar α] {start finish t : α} {segments : List (Segment α)}

theorem le_start (h : LaidOut finish start segments) :
    ∀ s ∈ segments, start ≤ s.start := by
  induction segments generalizing start with
  | nil => exact List.forall_mem_nil _
  | cons s rest ih =>
      obtain ⟨rfl, hlt, hrest⟩ := h
      intro s' hs'
      rcases List.mem_cons.mp hs' with rfl | hs'
      · exact le_rfl
      · exact hlt.le.trans (ih hrest s' hs')

theorem le (h : LaidOut finish start segments) : start ≤ finish := by
  induction segments generalizing start with
  | nil => exact h.le
  | cons s rest ih =>
      obtain ⟨rfl, hlt, hrest⟩ := h
      exact hlt.le.trans (ih hrest)

/-- A time in range falls into one segment, behind those before it and ahead of the others. -/
theorem exists_contains (h : LaidOut finish start segments) (hlow : start ≤ t)
    (hhigh : t < finish) :
    ∃ front s back, segments = front ++ s :: back ∧ s.Contains t ∧
      (∀ other ∈ front, other.finish ≤ t) ∧ ∀ other ∈ back, t < other.start := by
  induction segments generalizing start with
  | nil => exact absurd (hlow.trans_lt hhigh) (h ▸ lt_irrefl _)
  | cons s rest ih =>
      obtain ⟨rfl, hlt, hrest⟩ := h
      by_cases hs : t < s.finish
      · refine ⟨[], s, rest, rfl, ⟨hlow, hs⟩, List.forall_mem_nil _, ?_⟩
        intro other hother
        exact hs.trans_le (hrest.le_start other hother)
      · have hbehind : s.finish ≤ t := not_lt.mp hs
        obtain ⟨front, s', back, rfl, hcontains, hfront, hback⟩ := ih hrest hbehind
        exact ⟨s :: front, s', back, rfl, hcontains,
          List.forall_mem_cons.mpr ⟨hbehind, hfront⟩, hback⟩

end Times

end LaidOut

/-! ## The layout of a production -/

section Production

variable {α : Type} [ExactAnalytic α] {timing : Timing α}

theorem Scene.id_of_produce {fig : Figure α} {start : α} {stage : Stage α}
    {registry : Registry α} {s : Scene α} {produced : Produced α}
    (h : s.produce timing fig start stage registry = .ok produced) :
    produced.segment.id = s.id := by
  unfold Scene.produce at h
  split at h
  · cases h
  · dsimp only at h
    split at h
    · cases h
    · cases h
      rfl

/-- Scenes that are produced from a time on are laid out from there, under their own names. -/
theorem Script.laidOut_of_produceFrom (hpadding : 0 < timing.scenePadding) {fig : Figure α}
    {start : α} {stage : Stage α} {registry : Registry α} {scenes : List (Scene α)}
    {production : Production α}
    (h : produceFrom timing fig start stage registry scenes = .ok production) :
    LaidOut production.timeline.duration start production.timeline.segments ∧
    production.timeline.segments.map Segment.id = scenes.map Scene.id := by
  induction scenes generalizing start stage registry production with
  | nil =>
      cases h
      exact ⟨rfl, rfl⟩
  | cons s rest ih =>
      rw [produceFrom] at h
      split at h
      next => cases h
      next produced hproduce =>
        split at h
        next => cases h
        next rested hrest =>
          cases h
          obtain ⟨hlayout, hids⟩ := ih hrest
          obtain ⟨-, hstart, hfinish, -⟩ := Scene.produce_eq_ok hproduce
          have hlasting : produced.segment.start < produced.segment.finish := by
            rw [hstart, hfinish]
            exact lt_add_of_pos_right start (Scene.length_pos (ExactScalar.isFinite _) hpadding s)
          refine ⟨⟨hstart, hlasting, hlayout⟩, ?_⟩
          rw [List.map_cons, List.map_cons, hids, Scene.id_of_produce hproduce]

theorem Script.laidOut_of_produce (hpadding : 0 < timing.scenePadding) {m : Model α}
    {s : Script α} {production : Production α} (h : s.produce timing m = .ok production) :
    LaidOut production.timeline.duration 0 production.timeline.segments ∧
    production.timeline.segments.map Segment.id = s.scenes.map Scene.id := by
  rw [produce] at h
  split at h
  · cases h
  · exact laidOut_of_produceFrom hpadding h

theorem LaidOut.isLaidOut {timeline : Timeline α}
    (h : LaidOut timeline.duration 0 timeline.segments) : timeline.IsLaidOut where
  head := by
    intro s hs
    cases hsegments : timeline.segments with
    | nil =>
        rw [hsegments] at hs
        cases hs
    | cons s' rest =>
        rw [hsegments] at hs h
        cases hs
        exact h.1
  chain := h.isChain
  lasting := h.lt_of_mem
  duration := h.finish_eq

end Production

/-! ## Looking up a time -/

section Lookup

variable {α : Type} [Scalar α]

/-- Playing a track changes neither the segment nor the times of a frame. -/
theorem Frame.times_play (t : α) (f : Frame α) (track : Track α) :
    (f.play t track).segment = f.segment ∧
    (f.play t track).globalTime = f.globalTime ∧
    (f.play t track).localTime = f.localTime := by
  unfold play set
  split
  · split <;> exact ⟨rfl, rfl, rfl⟩
  · exact ⟨rfl, rfl, rfl⟩

end Lookup

theorem Segment.times_frame {α : Type} [Analytic α] (s : Segment α)
    (globalTime localTime : α) :
    (s.frame globalTime localTime).segment = s.id ∧
    (s.frame globalTime localTime).globalTime = globalTime ∧
    (s.frame globalTime localTime).localTime = localTime := by
  have htracks : ∀ (tracks : List (Track α)) (f : Frame α),
      (tracks.foldl (Frame.play localTime) f).segment = f.segment ∧
      (tracks.foldl (Frame.play localTime) f).globalTime = f.globalTime ∧
      (tracks.foldl (Frame.play localTime) f).localTime = f.localTime := by
    intro tracks
    induction tracks with
    | nil => exact fun f => ⟨rfl, rfl, rfl⟩
    | cons track rest ih =>
        intro f
        obtain ⟨hsegment, hglobal, hlocal⟩ := Frame.times_play localTime f track
        rw [List.foldl_cons, ← hsegment, ← hglobal, ← hlocal]
        exact ih (f.play localTime track)
  exact htracks s.tracks (s.blank globalTime localTime)

namespace Timeline

theorem segmentPlaying_eq_ok {α : Type} [Analytic α] {timeline : Timeline α} {t : α}
    {s : Segment α} :
    timeline.segmentPlaying t = .ok s ↔
      timeline.segmentAt? (timeWithin timeline.duration t) = some s := by
  unfold segmentPlaying
  cases timeline.segmentAt? (timeWithin timeline.duration t) <;> simp

/-- There is a segment for every time unless there are no segments at all. -/
theorem segmentAt?_eq_none {α : Type} [Scalar α] {timeline : Timeline α} {t : α} :
    timeline.segmentAt? t = none ↔ timeline.segments = [] := by
  unfold segmentAt?
  split
  · exact List.getLast?_eq_none_iff
  · rw [Option.or_eq_none_iff, List.getLast?_eq_none_iff]
    exact ⟨fun h => h.2, fun h => ⟨by rw [h]; rfl, h⟩⟩

/-- There is a frame for every time unless there are no segments at all. -/
theorem frame_eq_error {α : Type} [Analytic α] {timeline : Timeline α} {t : α}
    {fault : PlaybackFault} :
    timeline.frame t = .error fault ↔ timeline.segments = [] := by
  have hfault : fault = .emptyTimeline := by cases fault; rfl
  subst hfault
  unfold frame segmentPlaying
  rw [← segmentAt?_eq_none (t := timeWithin timeline.duration t)]
  cases timeline.segmentAt? (timeWithin timeline.duration t) with
  | none => exact iff_of_true rfl rfl
  | some s =>
      refine iff_of_false ?_ (Option.some_ne_none s)
      intro h
      cases h

theorem mem_of_segmentAt? {α : Type} [Scalar α] {timeline : Timeline α} {t : α} {s : Segment α}
    (h : timeline.segmentAt? t = some s) : s ∈ timeline.segments := by
  unfold segmentAt? at h
  split at h
  · exact List.mem_of_getLast? h
  · rcases Option.or_eq_some_iff.mp h with h | ⟨-, h⟩
    · exact List.mem_of_find?_eq_some h
    · exact List.mem_of_getLast? h

/-- A frame of a timeline is a frame of the segment that is played, at a time in its range. -/
theorem frame_eq_ok {α : Type} [Analytic α] {timeline : Timeline α} {t : α} {f : Frame α}
    (h : timeline.frame t = .ok f) :
    ∃ s ∈ timeline.segments, timeline.segmentPlaying t = .ok s ∧
      f = s.frame (timeWithin timeline.duration t)
        (timeWithin s.duration (timeWithin timeline.duration t - s.start)) := by
  unfold frame at h
  cases hplaying : timeline.segmentPlaying t with
  | error fault =>
      rw [hplaying] at h
      cases h
  | ok s =>
      rw [hplaying] at h
      cases h
      exact ⟨s, mem_of_segmentAt? (segmentPlaying_eq_ok.mp hplaying), rfl, rfl⟩

/-- A time gives the same frame as the time in range that it is brought to. -/
theorem frame_timeWithin {α : Type} [Analytic α] [LawfulScalar α] (timeline : Timeline α)
    (t : α) : timeline.frame (timeWithin timeline.duration t) = timeline.frame t := by
  unfold frame segmentPlaying
  rw [timeWithin_timeWithin]

section Exact

variable {α : Type} [ExactAnalytic α] {timeline : Timeline α}

/-- Before the end a time is played by the one segment that it falls into. -/
theorem exists_segmentPlaying_of_lt (h : LaidOut timeline.duration 0 timeline.segments)
    {t : α} (ht : timeWithin timeline.duration t < timeline.duration) :
    ∃ front s back, timeline.segments = front ++ s :: back ∧
      timeline.segmentPlaying t = .ok s ∧
      s.Contains (timeWithin timeline.duration t) ∧
      ∀ other ∈ front ++ back, ¬ other.Contains (timeWithin timeline.duration t) := by
  have hlow : 0 ≤ timeWithin timeline.duration t := (timeWithin_bounds _ t).1
  obtain ⟨front, s, back, hsegments, hcontains, hfront, hback⟩ := h.exists_contains hlow ht
  have hnot : ∀ other ∈ front ++ back, ¬ other.Contains (timeWithin timeline.duration t) := by
    intro other hother hin
    rcases List.mem_append.mp hother with hother | hother
    · exact not_lt.mpr (hfront other hother) hin.2
    · exact not_lt.mpr hin.1 (hback other hother)
  refine ⟨front, s, back, hsegments, ?_, hcontains, hnot⟩
  have hfind : (timeline.segments.find? fun s => decide
      (s.start ≤ timeWithin timeline.duration t ∧ timeWithin timeline.duration t < s.finish)) =
      some s := by
    rw [hsegments, List.find?_eq_some_iff_append]
    refine ⟨decide_eq_true hcontains, front, back, rfl, ?_⟩
    intro other hother
    have hother' := hnot other (List.mem_append_left back hother)
    simpa [Segment.Contains, or_iff_not_imp_left] using hother'
  rw [segmentPlaying_eq_ok, segmentAt?, if_neg (not_le.mpr ht), hfind]
  rfl

/-- From the end on the last segment is played. -/
theorem exists_segmentPlaying_of_le {t : α}
    (ht : timeline.duration ≤ timeWithin timeline.duration t)
    (hsegments : timeline.segments ≠ []) :
    ∃ front s, timeline.segments = front ++ [s] ∧ timeline.segmentPlaying t = .ok s := by
  obtain ⟨front, s, hconcat⟩ := (List.eq_nil_or_concat timeline.segments).resolve_left hsegments
  refine ⟨front, s, by rw [hconcat, List.concat_eq_append], ?_⟩
  rw [segmentPlaying_eq_ok, segmentAt?, if_pos ht, hconcat, List.concat_eq_append,
    List.getLast?_concat]

end Exact

end Timeline

/-- A script that has scenes has a frame for every time. -/
theorem Script.exists_frame_of_produce {α : Type} [Analytic α] {timing : Timing α} {m : Model α}
    {s : Script α} {production : Production α} (hscenes : s.scenes ≠ [])
    (h : s.produce timing m = .ok production) (t : α) :
    ∃ f, production.timeline.frame t = .ok f := by
  cases hframe : production.timeline.frame t with
  | ok f => exact ⟨f, rfl⟩
  | error fault =>
      obtain ⟨hperformed, hsegments⟩ := segments_of_produce h
      rw [Timeline.frame_eq_error.mp hframe] at hsegments
      rw [List.map_eq_nil_iff.mp hsegments.symm] at hperformed
      exact absurd hperformed.symm hscenes

/-- A frame that shows a segment at a time of the timeline from its start to its finish. -/
structure Frame.IsOf {α : Type} [Analytic α] (f : Frame α) (s : Segment α) (t : α) : Prop where
  eq_frame : f = s.frame t (t - s.start)
  segment : f.segment = s.id
  globalTime : f.globalTime = t
  localTime : f.localTime = t - s.start
  zero_le : 0 ≤ f.localTime
  le_duration : f.localTime ≤ s.duration

section Playing

variable {α : Type} [ExactAnalytic α] {timeline : Timeline α}

/-- The frame of a time that lies in the segment which is played. -/
theorem Timeline.exists_frame {t : α} {s : Segment α} (h : timeline.segmentPlaying t = .ok s)
    (hstart : s.start ≤ timeWithin timeline.duration t)
    (hfinish : timeWithin timeline.duration t ≤ s.finish) :
    ∃ f, timeline.frame t = .ok f ∧ f.IsOf s (timeWithin timeline.duration t) := by
  have hlow : 0 ≤ timeWithin timeline.duration t - s.start := sub_nonneg.mpr hstart
  have hhigh : timeWithin timeline.duration t - s.start ≤ s.duration :=
    sub_le_sub_right hfinish s.start
  have hrange : timeWithin s.duration (timeWithin timeline.duration t - s.start) =
      timeWithin timeline.duration t - s.start :=
    timeWithin_of_le hlow (hhigh.trans (by
      rw [ExactScalar.nonNegative_eq_max]
      exact le_max_right _ _))
  obtain ⟨hsegment, hglobal, hlocal⟩ := s.times_frame (timeWithin timeline.duration t)
    (timeWithin timeline.duration t - s.start)
  refine ⟨_, ?_, rfl, hsegment, hglobal, hlocal, ?_, ?_⟩
  · rw [frame, h]
    change Except.ok (s.frame _ (timeWithin s.duration _)) = _
    rw [hrange]
  · rw [hlocal]
    exact hlow
  · rw [hlocal]
    exact hhigh

/-- Every time is played by a segment; before the end it is the only one the time falls into. -/
theorem LaidOut.exists_playing (h : LaidOut timeline.duration 0 timeline.segments)
    (hsegments : timeline.segments ≠ []) (t : α) :
    ∃ front s back f, timeline.segments = front ++ s :: back ∧
      timeline.segmentPlaying t = .ok s ∧ timeline.frame t = .ok f ∧
      f.IsOf s (max 0 (min t timeline.duration)) ∧
      (t < timeline.duration → s.Contains (max 0 (min t timeline.duration)) ∧
        ∀ other ∈ front ++ back, ¬ other.Contains (max 0 (min t timeline.duration))) ∧
      (timeline.duration ≤ t → back = []) := by
  have hclamp : timeWithin timeline.duration t = max 0 (min t timeline.duration) :=
    timeWithin_eq_max_min h.le t
  have hpos : 0 < timeline.duration := by
    obtain ⟨s, rest, hcons⟩ := List.exists_cons_of_ne_nil hsegments
    rw [hcons] at h
    obtain ⟨hstart, hlt, hrest⟩ := h
    exact hstart.symm.trans_lt (hlt.trans_le hrest.le)
  by_cases ht : t < timeline.duration
  · have hbefore : timeWithin timeline.duration t < timeline.duration := by
      rw [hclamp, min_eq_left ht.le]
      exact max_lt hpos ht
    obtain ⟨front, s, back, heq, hplaying, hcontains, hnot⟩ :=
      Timeline.exists_segmentPlaying_of_lt h hbefore
    obtain ⟨f, hframe, hf⟩ := Timeline.exists_frame hplaying hcontains.1 hcontains.2.le
    rw [hclamp] at hf hcontains hnot
    exact ⟨front, s, back, f, heq, hplaying, hframe, hf, fun _ => ⟨hcontains, hnot⟩,
      fun hle => absurd ht (not_lt.mpr hle)⟩
  · have hend : timeWithin timeline.duration t = timeline.duration := by
      rw [hclamp, min_eq_right (not_lt.mp ht), max_eq_right h.le]
    obtain ⟨front, s, heq, hplaying⟩ :=
      Timeline.exists_segmentPlaying_of_le hend.ge hsegments
    have hfinish : timeline.duration = s.finish := by
      rw [h.finish_eq, heq, List.getLast?_concat]
      rfl
    have hstart : s.start ≤ timeWithin timeline.duration t := by
      rw [hend, hfinish]
      exact (h.lt_of_mem s (by simp [heq])).le
    obtain ⟨f, hframe, hf⟩ := Timeline.exists_frame hplaying hstart (hend.trans hfinish).le
    rw [hclamp] at hf
    exact ⟨front, s, [], f, heq, hplaying, hframe, hf, fun hlt => absurd hlt ht, fun _ => rfl⟩

end Playing

/--
The segments of a produced script are its scenes in order, laid end to end from zero
to the duration of the timeline.  Every time, brought into that range, is played by
the one segment that it falls into, and by the last one from the end on.

In double precision, for any timeline and any time at all, the range is never empty,
a frame is missing only for want of segments, and bringing the time into range first
makes no difference.
-/
theorem Script.timeline_layout {α : Type} [ExactAnalytic α] {timing : Timing α} {m : Model α}
    {s : Script α} {production : Production α} (hpadding : 0 < timing.scenePadding)
    (h : s.produce timing m = .ok production) :
    (production.timeline.IsLaidOut ∧
      production.timeline.segments.map Segment.id = s.scenes.map Scene.id ∧
      (s.scenes ≠ [] → ∀ t : α,
        ∃ front played back f, production.timeline.segments = front ++ played :: back ∧
          production.timeline.segmentPlaying t = .ok played ∧
          production.timeline.frame t = .ok f ∧
          f.IsOf played (max 0 (min t production.timeline.duration)) ∧
          (t < production.timeline.duration →
            played.Contains (max 0 (min t production.timeline.duration)) ∧
            ∀ other ∈ front ++ back,
              ¬ other.Contains (max 0 (min t production.timeline.duration))) ∧
          (production.timeline.duration ≤ t → back = []))) ∧
    ∀ (timeline : Timeline Float) (t : Float),
      (0 ≤ timeWithin timeline.duration t ∧
        timeWithin timeline.duration t ≤ Scalar.nonNegative timeline.duration) ∧
      (∀ segment ∈ timeline.segments, 0 ≤ Scalar.nonNegative segment.duration) ∧
      ((∃ fault, timeline.frame t = .error fault) ↔ timeline.segments = []) ∧
      timeline.frame t = timeline.frame (timeWithin timeline.duration t) := by
  obtain ⟨hlayout, hids⟩ := laidOut_of_produce hpadding h
  constructor
  · refine ⟨hlayout.isLaidOut, hids, ?_⟩
    intro hscenes t
    have hsegments : production.timeline.segments ≠ [] := by
      intro hnil
      rw [hnil, List.map_nil] at hids
      exact hscenes (List.map_eq_nil_iff.mp hids.symm)
    exact hlayout.exists_playing hsegments t
  · intro timeline t
    refine ⟨timeWithin_bounds _ t, fun _ _ => Scalar.zero_le_nonNegative _, ?_,
      (timeline.frame_timeWithin t).symm⟩
    constructor
    · rintro ⟨fault, hfault⟩
      exact Timeline.frame_eq_error.mp hfault
    · intro hnil
      exact ⟨.emptyTimeline, Timeline.frame_eq_error.mpr hnil⟩

/-- A scene in which nothing is told and nothing happens. -/
def quietScene {α : Type} [Scalar α] (id : String) : Scene α :=
  ⟨id, "", Camera.standard, [], none⟩

theorem Script.exists_produceFrom_quiet {α : Type} [Analytic α] (timing : Timing α)
    (fig : Figure α) (start : α) (stage : Stage α) (ids : List String) :
    ∃ production, produceFrom timing fig start stage OrderedMap.empty (ids.map quietScene) =
      .ok production := by
  induction ids generalizing start stage with
  | nil => exact ⟨_, rfl⟩
  | cons id rest ih =>
      obtain ⟨produced, hproduced⟩ :=
        @Scene.exists_produce_eq_ok _ _ timing fig start stage OrderedMap.empty (quietScene id)
          rfl rfl rfl
      obtain ⟨-, -, -, -, -, hregistry⟩ := Scene.produce_eq_ok hproduced
      have hempty : produced.registry = OrderedMap.empty := hregistry
      obtain ⟨rested, hrested⟩ := ih produced.segment.finish produced.stage
      rw [List.map_cons, produceFrom, hproduced]
      simp only [hempty, hrested]
      exact ⟨_, rfl⟩

theorem Script.timeline_layout_quiet :
    ∃ production, (⟨"", ["first", "second"].map quietScene⟩ : Script ℝ).produce
        Timing.usual plainSquare = .ok production ∧
      (0 : ℝ) < (Timing.usual : Timing ℝ).scenePadding ∧
      production.timeline.IsLaidOut ∧
      production.timeline.segments.map Segment.id = ["first", "second"] := by
  have hpadding : (0 : ℝ) < (Timing.usual : Timing ℝ).scenePadding := by
    change (0 : ℝ) < 0.5
    rw [ExactScalar.literal_eq]
    norm_num
  obtain ⟨fig, hfig⟩ : ∃ fig, (plainSquare : Model ℝ).figure = .ok fig := ⟨_, rfl⟩
  obtain ⟨production, hfrom⟩ := exists_produceFrom_quiet (Timing.usual : Timing ℝ) fig 0
    (Stage.initial plainSquare) ["first", "second"]
  have h : (⟨"", ["first", "second"].map quietScene⟩ : Script ℝ).produce Timing.usual
      plainSquare = .ok production := by
    rw [produce, hfig]
    exact hfrom
  have hlayout := (timeline_layout hpadding h).1
  exact ⟨production, h, hpadding, hlayout.1, hlayout.2.1⟩

end Storyboard
