import Storyboard.Proofs.Timeline.Keys

/-!
# Well-formed segments

What a scene is produced into is always fit to be played: no channel has two tracks,
every track has keyframes, in the order of time and within the segment, and their
values are of the kind that the channel takes.  Every keyframe sets up what was
handed on, is written by an action while the action lasts, or releases a highlight.
-/

namespace Storyboard

open Track

/-! ## Values that a channel takes -/

section Kinds

variable {α : Type}

/-- A value of the kind that is shown on a channel. -/
def Channel.Takes (c : Channel) (v : KeyValue α) : Prop :=
  match c.property with
  | .visibility => ∃ b, v = .bool b
  | .opacity | .parameter | .angle => ∃ x, v = .number x
  | .highlight => (∃ color, v = .color color) ∨ v = .null

/-- A value that a channel takes is shown whatever was shown before. -/
theorem Channel.update_of_takes {c : Channel} {v : KeyValue α} (h : c.Takes v)
    (old : Option (KeyValue α)) : c.update old v = c.update none v := by
  obtain ⟨property, target⟩ := c
  cases property with
  | visibility =>
      obtain ⟨b, rfl⟩ := h
      cases b <;> rfl
  | highlight => rcases h with ⟨color, rfl⟩ | rfl <;> rfl
  | opacity | parameter | angle =>
      obtain ⟨x, rfl⟩ := h
      rfl

theorem Stage.takes_of_value? {stage : Stage α} {c : Channel} {v : KeyValue α}
    (h : stage.value? c = some v) : c.Takes v := by
  obtain ⟨property, target⟩ := c
  unfold value? at h
  cases property with
  | highlight => cases h
  | visibility | opacity | parameter | angle =>
      obtain ⟨x, -, rfl⟩ := Option.map_eq_some_iff.mp h
      exact ⟨_, rfl⟩

/-- Whatever a cue writes is of the kind that its channel takes. -/
theorem Cue.takes_of_mem_writes [Scalar α] {stage : Stage α} {cue : Cue α} {w : Write α}
    (h : w ∈ cue.writes stage) : w.1.Takes w.2.value := by
  unfold writes at h
  split at h
  case h_6 target color repetitions _ =>
      obtain ⟨k, hk, rfl⟩ := List.mem_map.mp h
      rcases List.mem_append.mp hk with hk | hk
      · obtain ⟨i, -, rfl⟩ := List.mem_map.mp hk
        by_cases hi : i % 2 = 0
        · simp only [if_pos hi]
          exact Or.inl ⟨color, rfl⟩
        · simp only [if_neg hi]
          exact Or.inr rfl
      · obtain rfl := List.mem_singleton.mp hk
        exact Or.inr rfl
  case h_7 element _ =>
      rcases List.mem_cons.mp h with rfl | h
      · exact ⟨true, rfl⟩
      · obtain ⟨opacity, -, rfl⟩ := List.mem_map.mp h
        exact ⟨opacity, rfl⟩
  case h_10 => exact absurd h List.not_mem_nil
  all_goals
    simp only [List.mem_cons, List.not_mem_nil, or_false] at h
    rcases h with rfl | rfl | rfl <;>
      simp [Channel.Takes, Keyframe.flag, Keyframe.number, Keyframe.eased, Keyframe.color]

end Kinds

/-! ## Playing a track -/

section Playing

variable {α : Type} [Scalar α]

theorem mem_of_neighbours {β : Type} {p : β → Bool} {a : Array β} :
    (∀ b, (neighbours p a).1 = some b → b ∈ a) ∧ ∀ b, (neighbours p a).2 = some b → b ∈ a := by
  unfold neighbours
  constructor
  · intro b hb
    dsimp only at hb
    split at hb
    · cases hb
    · exact Array.mem_of_getElem? hb
  · intro b hb
    exact Array.mem_of_getElem? hb

/-- Between two values of one kind lies a value of that kind. -/
theorem Keyframe.takes_between {c : Channel} {prev next : Keyframe α}
    (hprev : c.Takes prev.value) (hnext : c.Takes next.value) (t : α) :
    c.Takes (prev.between next t) := by
  unfold Keyframe.between
  split
  next a b ha hb =>
    dsimp only
    split
    · exact hnext
    · rw [ha] at hprev
      obtain ⟨property, target⟩ := c
      cases property with
      | visibility =>
          obtain ⟨visible, heq⟩ := hprev
          cases heq
      | highlight =>
          rcases hprev with ⟨color, heq⟩ | heq
          · cases heq
          · cases heq
      | opacity | parameter | angle => exact ⟨_, rfl⟩
  next => exact hprev

/-- A track of values that its channel takes never plays any other. -/
theorem Keyframe.takes_valueAt? {c : Channel} {keys : Array (Keyframe α)} {t : α}
    {v : KeyValue α} (hkeys : ∀ k ∈ keys, c.Takes k.value)
    (h : Keyframe.valueAt? keys t = some v) : c.Takes v := by
  obtain ⟨hfront, hback⟩ := mem_of_neighbours (p := fun k => decide (k.time ≤ t)) (a := keys)
  unfold valueAt? at h
  split at h
  next => cases h
  next prev hneighbours =>
    cases h
    exact hkeys prev (hfront prev (congrArg Prod.fst hneighbours))
  next prev next hneighbours =>
    cases h
    exact takes_between (hkeys prev (hfront prev (congrArg Prod.fst hneighbours)))
      (hkeys next (hback next (congrArg Prod.snd hneighbours))) t

end Playing

/-! ## The tracks of some writes -/

/-- The keyframes of a track are those that were written to its channel, put in order. -/
theorem keyframes_of_mem_ofWrites {α : Type} [Scalar α] {ws : List (Write α)} {track : Track α}
    (h : track ∈ ofWrites ws) :
    keysOf track.channel ws ≠ [] ∧
    track.keyframes = (arrange (keysOf track.channel ws)).toArray := by
  obtain ⟨e, he, rfl⟩ := List.mem_map.mp h
  have hget := OrderedMap.mem_entries_iff.mp he
  rw [get?_foldl_gather] at hget
  cases hkeys : keysOf e.1 ws with
  | nil =>
      rw [hkeys] at hget
      cases hget
  | cons key rest =>
      rw [hkeys] at hget
      change rest.foldl _ (some (place key [])) = some e.2 at hget
      rw [foldl_some_place] at hget
      refine ⟨List.cons_ne_nil key rest, ?_⟩
      rw [← Option.some_inj.mp hget]
      rfl

/-! ## When the keyframes of an action are written -/

namespace Action

/-- What an action of a scene writes when it starts at a time and finds a stage. -/
def emits {α : Type} [Scalar α] (m : Model α) (scene : String) (stage : Stage α) (start : α)
    (a : Action α) : List (Write α) :=
  (stage.follow (untilError ((a.timed start).map (Step.cue m scene))).1).2

/-- Every keyframe that an action writes lies between its start and its end. -/
theorem time_of_mem_emits {α : Type} [ExactScalar α] {m : Model α} {scene : String}
    {stage : Stage α} {start : α} {a : Action α} {w : Write α}
    (h : w ∈ a.emits m scene stage start) :
    start ≤ w.2.time ∧ w.2.time ≤ start + a.duration := by
  obtain ⟨cue, hcue, found, hw⟩ := Stage.mem_follow h
  obtain ⟨e, he, hok⟩ := List.mem_map.mp (mem_of_mem_untilError hcue)
  obtain ⟨hstart, hduration, -⟩ := Step.cue_eq_ok hok
  obtain ⟨hstart', hduration'⟩ := timed_bounds start a e he
  have hnonneg : 0 ≤ cue.duration := by
    rw [hduration]
    exact e.2.duration_nonneg
  obtain ⟨hlow, hhigh⟩ := Cue.time_of_mem_writes hnonneg hw
  rw [hstart, hstart'] at hlow
  refine ⟨hlow, hhigh.trans ?_⟩
  rw [Cue.finish, hstart, hstart', hduration]
  exact add_le_add_right hduration' start

end Action

/-! ## What a segment is made of -/

/-- The actions that run in a scene, and when each of them starts. -/
def Scene.runs {α : Type} [Scalar α] (s : Scene α) : List (α × Action α) :=
  Action.runsInTurn 0 s.actions

/-- A segment whose tracks can be played without passing over anything. -/
structure Segment.WellFormed {α : Type} [ExactScalar α] (s : Segment α) : Prop where
  nodup : (s.tracks.map Track.channel).Nodup
  nonempty : ∀ track ∈ s.tracks, track.keyframes ≠ #[]
  inOrder : ∀ track ∈ s.tracks, Keyframe.InOrder track.keyframes.toList
  within : ∀ track ∈ s.tracks, ∀ k ∈ track.keyframes, 0 ≤ k.time ∧ k.time ≤ s.duration
  takes : ∀ track ∈ s.tracks, ∀ k ∈ track.keyframes, track.channel.Takes k.value

/-- Where a keyframe of a performance comes from. -/
inductive Performance.Origin {α : Type} [Scalar α] (timing : Timing α) (m : Model α)
    (p : Performance α) (c : Channel) : Keyframe α → Prop where
  | handed (v : KeyValue α) (h : p.stage.value? c = some v) : Origin timing m p c ⟨0, v, none⟩
  | emitted (start : α) (a : Action α) (stage : Stage α) (k : Keyframe α)
      (hrun : (start, a) ∈ p.scene.runs) (h : (c, k) ∈ a.emits m p.scene.id stage start) :
      Origin timing m p c k
  | released (k : Keyframe α)
      (h : (c, k) ∈ releaseWrites (p.scene.length timing) timing.highlightRelease
        (heldHighlights (p.scene.cues m))) : Origin timing m p c k

namespace Stage

theorem value?_of_mem_writes {α : Type} [Scalar α] {stage : Stage α} {c : Channel}
    {k : Keyframe α} (h : (c, k) ∈ stage.writes) :
    ∃ v, stage.value? c = some v ∧ k = ⟨0, v, none⟩ := by
  have hmem : k ∈ keysOf c stage.writes := mem_keysOf.mpr h
  rw [keysOf_writes] at hmem
  obtain ⟨v, hv, rfl⟩ := List.mem_map.mp hmem
  exact ⟨v, Option.mem_toList.mp hv, rfl⟩

end Stage

theorem mem_releaseWrites {α : Type} [Scalar α] {duration release : α}
    {held : OrderedMap String String} {w : Write α}
    (h : w ∈ releaseWrites duration release held) :
    w.1.property = .highlight ∧
    ((w.2.time = Scalar.nonNegative (duration - release) ∧ ∃ color, w.2.value = .color color) ∨
      (w.2.time = duration ∧ w.2.value = .null)) := by
  obtain ⟨⟨target, color⟩, -, hw⟩ := List.mem_flatMap.mp h
  simp only [List.mem_cons, List.not_mem_nil, or_false] at hw
  rcases hw with rfl | rfl
  · exact ⟨rfl, Or.inl ⟨rfl, color, rfl⟩⟩
  · exact ⟨rfl, Or.inr ⟨rfl, rfl⟩⟩

namespace Performance

variable {α : Type} [ExactAnalytic α] {timing : Timing α} {m : Model α} {s : Script α}
  {p : Performance α}

/-- Every keyframe of a performance was handed to it, is written by an action, or releases. -/
theorem origin_of_mem (h : p ∈ s.performances timing m) {track : Track α}
    (htrack : track ∈ p.segment.tracks) {k : Keyframe α} (hk : k ∈ track.keyframes) :
    p.Origin timing m track.channel k := by
  obtain ⟨fig, rfl, hproduce⟩ := Script.produce_of_mem_performances h
  obtain ⟨-, -, -, htracks, -, -⟩ := Scene.produce_eq_ok hproduce
  rw [segment, htracks] at htrack
  obtain ⟨-, hkeys⟩ := keyframes_of_mem_ofWrites htrack
  rw [hkeys, List.mem_toArray, mem_arrange, mem_keysOf] at hk
  rcases List.mem_append.mp hk with hk | hk
  · rcases List.mem_append.mp hk with hk | hk
    · obtain ⟨v, hv, rfl⟩ := Stage.value?_of_mem_writes hk
      exact .handed v hv
    · obtain ⟨cue, hcue, found, hw⟩ := Stage.mem_follow hk
      obtain ⟨e, he, hok⟩ := List.mem_map.mp (mem_of_mem_untilError hcue)
      refine .emitted e.1 (.step e.2) found k (Action.mem_runsInTurn 0 _ e he) ?_
      rw [Action.emits, Action.timed]
      change _ ∈ (found.follow (untilError [Step.cue fig.model p.scene.id e]).1).2
      rw [hok]
      exact List.mem_append_left _ hw
  · exact .released k hk

theorem Origin.time_bounds (hpadding : 0 ≤ timing.scenePadding)
    (hrelease : 0 ≤ timing.highlightRelease) {c : Channel} {k : Keyframe α}
    (h : p.Origin timing m c k) : 0 ≤ k.time ∧ k.time ≤ p.scene.length timing := by
  have hend := Scene.endInTurn_le_length (ExactScalar.isFinite _) hpadding p.scene
  have hlength : 0 ≤ p.scene.length timing := (Action.le_endInTurn le_rfl _).trans hend
  cases h with
  | handed v hv => exact ⟨le_rfl, hlength⟩
  | emitted start a stage k hrun hk =>
      obtain ⟨hlow, hhigh⟩ := Action.runsInTurn_bounds le_rfl _ _ hrun
      obtain ⟨hstart, hfinish⟩ := Action.time_of_mem_emits hk
      exact ⟨hlow.trans hstart, hfinish.trans (hhigh.trans hend)⟩
  | released k hk =>
      rcases (mem_releaseWrites hk).2 with ⟨htime, -⟩ | ⟨htime, -⟩
      · dsimp only at htime
        rw [htime, ExactScalar.nonNegative_eq_max]
        exact ⟨le_max_left _ _, max_le hlength (sub_le_self _ hrelease)⟩
      · dsimp only at htime
        rw [htime]
        exact ⟨hlength, le_rfl⟩

theorem Origin.takes {c : Channel} {k : Keyframe α} (h : p.Origin timing m c k) :
    c.Takes k.value := by
  cases h with
  | handed v hv => exact Stage.takes_of_value? hv
  | emitted start a stage k hrun hk =>
      obtain ⟨cue, -, found, hw⟩ := Stage.mem_follow hk
      exact Cue.takes_of_mem_writes hw
  | released k hk =>
      obtain ⟨hproperty, hvalue⟩ := mem_releaseWrites hk
      unfold Channel.Takes
      rw [hproperty]
      exact hvalue.imp And.right And.right

/-- What a scene is produced into can be played without passing over anything. -/
theorem wellFormed (hpadding : 0 ≤ timing.scenePadding)
    (hrelease : 0 ≤ timing.highlightRelease) (h : p ∈ s.performances timing m) :
    p.segment.WellFormed := by
  obtain ⟨ws, htracks, -⟩ := tracks_eq h
  refine ⟨?_, ?_, ?_, ?_, ?_⟩
  · rw [htracks]
    exact nodup_channels_ofWrites ws
  · intro track htrack hempty
    rw [htracks] at htrack
    obtain ⟨hne, hkeys⟩ := keyframes_of_mem_ofWrites htrack
    obtain ⟨key, hkey⟩ := List.exists_mem_of_ne_nil _ hne
    have hmem : key ∈ track.keyframes := by
      rw [hkeys, List.mem_toArray]
      exact mem_arrange.mpr hkey
    rw [hempty] at hmem
    exact absurd hmem (Array.not_mem_empty key)
  · intro track htrack
    rw [htracks] at htrack
    rw [(keyframes_of_mem_ofWrites htrack).2]
    exact inOrder_arrange _
  · intro track htrack k hk
    rw [duration_eq h]
    exact (origin_of_mem h htrack hk).time_bounds hpadding hrelease
  · intro track htrack k hk
    exact (origin_of_mem h htrack hk).takes

end Performance

/--
Every scene of a produced script becomes a well-formed segment.  Its keyframes set up
what was handed on, release highlights at its end, or are written by one of the
actions that run in it, groups and their members alike, each of which writes only
between its start and its end.  Whatever a track plays is shown on its channel.
-/
theorem Script.segments_wellFormed {α : Type} [ExactAnalytic α] {timing : Timing α}
    {m : Model α} {s : Script α} {production : Production α}
    (hpadding : 0 ≤ timing.scenePadding) (hrelease : 0 ≤ timing.highlightRelease)
    (h : s.produce timing m = .ok production) :
    production.timeline.segments = (s.performances timing m).map Performance.segment ∧
    ∀ p ∈ s.performances timing m,
      p.segment.WellFormed ∧
      (∀ run ∈ p.scene.runs, ∀ stage, ∀ w ∈ run.2.emits m p.scene.id stage run.1,
        run.1 ≤ w.2.time ∧ w.2.time ≤ run.1 + run.2.duration) ∧
      ∀ track ∈ p.segment.tracks,
        (∀ k ∈ track.keyframes, p.Origin timing m track.channel k) ∧
        ∀ t v, Keyframe.valueAt? track.keyframes t = some v →
          track.channel.Takes v ∧
          ∀ f : Frame α, (f.set track.channel v).value? track.channel =
            track.channel.update none v := by
  refine ⟨(segments_of_produce h).2, ?_⟩
  intro p hp
  have hwell := Performance.wellFormed hpadding hrelease hp
  refine ⟨hwell, fun run _ stage w hw => Action.time_of_mem_emits hw, ?_⟩
  intro track htrack
  constructor
  · intro k hk
    exact Performance.origin_of_mem hp htrack hk
  · intro t v hv
    have htakes := Keyframe.takes_valueAt? (hwell.takes track htrack) hv
    refine ⟨htakes, ?_⟩
    intro f
    rw [Frame.value?_set, if_pos rfl]
    exact Channel.update_of_takes htakes _

/-- A scene in which a vertex is highlighted, and pulses and fades in at the same time. -/
def glowingScene {α : Type} [Scalar α] : Scene α where
  id := "glowing"
  narration := ""
  camera := Camera.standard
  actions := [.step (.highlight "A" none),
    .together [.step (.pulse "A" none none), .step (.fadeIn "A" none)]]
  measurements := none

theorem Script.segments_wellFormed_glowing :
    ∃ production, (⟨"", [glowingScene]⟩ : Script ℝ).produce Timing.usual plainSquare =
      .ok production ∧
    (0 : ℝ) ≤ (Timing.usual : Timing ℝ).scenePadding ∧
    (0 : ℝ) ≤ (Timing.usual : Timing ℝ).highlightRelease ∧
    ∃ p ∈ (⟨"", [glowingScene]⟩ : Script ℝ).performances Timing.usual plainSquare,
      p.segment.WellFormed := by
  have hpadding : (0 : ℝ) ≤ (Timing.usual : Timing ℝ).scenePadding :=
    ExactScalar.literal_nonneg _ _ _
  have hrelease : (0 : ℝ) ≤ (Timing.usual : Timing ℝ).highlightRelease :=
    ExactScalar.literal_nonneg _ _ _
  obtain ⟨production, produced, h, hp⟩ :=
    exists_performance_of_single (Timing.usual : Timing ℝ) (m := plainSquare)
      (s := ⟨"", [glowingScene]⟩) rfl rfl
      (Scene.exists_produce_eq_ok Timing.usual 0 _ rfl rfl rfl)
  exact ⟨production, h, hpadding, hrelease, _, hp,
    ((segments_wellFormed hpadding hrelease h).2 _ hp).1⟩

end Storyboard
