import Storyboard.Proofs.Figure.Values
import Storyboard.Proofs.Timeline.Untouched
import Storyboard.Proofs.Timeline.WellFormed

/-!
# Plays that are alike

What a scene writes to a channel depends on what the stage holds for that channel and
on those of its cues that write to it, in their order.  The other cues do not matter,
nor where they stand among these.  So two scenes that are timed alike, and in which
the same cues write to each channel in the same order, play alike: their segments have
the same tracks up to order, and they hand on the same to the scenes after them.
-/

namespace Storyboard

open Track

/-- Maps in which the same values are found. -/
def OrderedMap.Alike {κ ν : Type} [DecidableEq κ] (m m' : OrderedMap κ ν) : Prop :=
  ∀ k, m'.get? k = m.get? k

/-- Stages that hold the same. -/
def Stage.Alike {α : Type} (stage stage' : Stage α) : Prop :=
  ∀ c, stage'.value? c = stage.value? c

/-- Frames that show the same, whatever came first into their maps. -/
structure Frame.Alike {α : Type} (f f' : Frame α) : Prop where
  segment : f'.segment = f.segment
  globalTime : f'.globalTime = f.globalTime
  localTime : f'.localTime = f.localTime
  visible : f.visible.Alike f'.visible
  opacities : f.opacities.Alike f'.opacities
  highlights : f.highlights.Alike f'.highlights
  parameters : f.parameters.Alike f'.parameters
  angles : f.angles.Alike f'.angles
  view : f'.view = f.view
  subtitle : f'.subtitle = f.subtitle
  measurements : f'.measurements = f.measurements

/-- Segments that have the same tracks, whatever the order of the tracks. -/
structure Segment.Alike {α : Type} (s s' : Segment α) : Prop where
  id : s'.id = s.id
  start : s'.start = s.start
  finish : s'.finish = s.finish
  narration : s'.narration = s.narration
  measurements : s'.measurements = s.measurements
  cameraTrack : s'.cameraTrack = s.cameraTrack
  tracks : s'.tracks.Perm s.tracks

/-- Productions with segments that are alike, and with the same elements. -/
structure Production.Alike {α : Type} (p p' : Production α) : Prop where
  duration : p'.timeline.duration = p.timeline.duration
  segments : List.Forall₂ Segment.Alike p.timeline.segments p'.timeline.segments
  registry : p.registry.Alike p'.registry

/-- The cues that write to a channel, in their order. -/
def cuesOn {α : Type} (c : Channel) (cues : List (Cue α)) : List (Cue α) :=
  cues.filter fun cue => decide (c ∈ cue.effect.channels)

/-- Cues of which the same ones write to each channel, in the same order. -/
def CuesAlike {α : Type} (cues cues' : List (Cue α)) : Prop :=
  ∀ c, cuesOn c cues' = cuesOn c cues

/-! ## One channel -/

section Channels

variable {α : Type} [Scalar α] {c : Channel} {stage stage' : Stage α}

/-- What a cue writes to a channel depends on what the stage holds for that channel alone. -/
theorem Cue.keysOf_writes_congr (h : stage'.value? c = stage.value? c) (cue : Cue α) :
    keysOf c (cue.writes stage') = keysOf c (cue.writes stage) := by
  unfold writes
  cases cue.effect with
  | fadeOut target =>
      by_cases hc : c = ⟨.opacity, target⟩
      · subst hc
        have hget : stage'.opacities.get? target = stage.opacities.get? target :=
          KeyValue.map_number_injective h
        dsimp only
        rw [hget]
      · simp [keysOf_cons, Ne.symm hc]
  | reveal | hide | fadeIn | highlight | pulse | create | drive | fold | rest => rfl

/-- What some cues do to a channel is what those of them do that write to it. -/
theorem Stage.follow_cuesOn (h : stage'.value? c = stage.value? c) (cues : List (Cue α)) :
    keysOf c (stage'.follow cues).2 = keysOf c (stage.follow (cuesOn c cues)).2 ∧
    (stage'.follow cues).1.value? c = (stage.follow (cuesOn c cues)).1.value? c := by
  induction cues generalizing stage stage' with
  | nil => exact ⟨rfl, h⟩
  | cons cue rest ih =>
      by_cases hc : c ∈ cue.effect.channels
      · have hafter : (stage'.after cue.effect).value? c = (stage.after cue.effect).value? c := by
          rw [Cue.value?_after, Cue.value?_after, h]
        obtain ⟨hkeys, hvalue⟩ := ih hafter
        rw [cuesOn, List.filter_cons_of_pos (by simpa using hc), follow_cons, follow_cons,
          keysOf_append, keysOf_append, Cue.keysOf_writes_congr h]
        exact ⟨congrArg _ hkeys, hvalue⟩
      · -- a cue off the channel neither writes to it nor changes what the stage holds for it
        have hafter : (stage'.after cue.effect).value? c = stage.value? c := by
          rw [Cue.value?_after_of_notMem hc, h]
        rw [cuesOn, List.filter_cons_of_neg (by simpa using hc), follow_cons, keysOf_append,
          Cue.keysOf_writes_eq_nil_iff.mpr hc, List.nil_append]
        exact ih hafter

theorem Stage.follow_congr (h : stage'.value? c = stage.value? c) {cues cues' : List (Cue α)}
    (hcues : cuesOn c cues' = cuesOn c cues) :
    keysOf c (stage'.follow cues').2 = keysOf c (stage.follow cues).2 ∧
    (stage'.follow cues').1.value? c = (stage.follow cues).1.value? c := by
  have hsame : stage.value? c = stage.value? c := rfl
  obtain ⟨hkeys, hvalue⟩ := follow_cuesOn hsame cues
  obtain ⟨hkeys', hvalue'⟩ := follow_cuesOn h cues'
  rw [hkeys, hkeys', hvalue, hvalue', hcues]
  exact ⟨rfl, rfl⟩

end Channels

section Named

variable {α β : Type} {cues cues' : List (Cue α)}

theorem filterMap_cuesOn {c : Channel} {f : Effect α → Option β}
    (hf : ∀ effect, c ∉ effect.channels → f effect = none) (cues : List (Cue α)) :
    (cuesOn c cues).filterMap (fun cue => f cue.effect) =
      cues.filterMap fun cue => f cue.effect := by
  unfold cuesOn
  induction cues with
  | nil => rfl
  | cons cue rest ih =>
      by_cases hc : c ∈ cue.effect.channels
      · rw [List.filter_cons_of_pos (by simpa using hc), List.filterMap_cons,
          List.filterMap_cons, ih]
      · rw [List.filter_cons_of_neg (by simpa using hc), List.filterMap_cons, hf _ hc, ih]

/-- The same highlights are held. -/
theorem CuesAlike.held (h : CuesAlike cues cues') :
    (heldHighlights cues).Alike (heldHighlights cues') := by
  intro id
  have hoff : ∀ effect : Effect α, ⟨.highlight, id⟩ ∉ effect.channels →
      effect.highlightOf? id = none := fun _ => Effect.highlightOf?_eq_none
  have hon := filterMap_cuesOn hoff
  rw [get?_heldHighlights, get?_heldHighlights, ← hon cues, ← hon cues', h]

/-- The same elements are registered. -/
theorem CuesAlike.registered (h : CuesAlike cues cues') {r r' : Registry α} (hr : r.Alike r') :
    OrderedMap.Alike (r.registerAll cues) (r'.registerAll cues') := by
  intro id
  have hoff : ∀ effect : Effect α, ⟨.visibility, id⟩ ∉ effect.channels →
      effect.elementOf? id = none := fun _ => Effect.elementOf?_eq_none
  have hon := filterMap_cuesOn hoff
  rw [Registry.get?_registerAll, Registry.get?_registerAll, ← hon cues, ← hon cues', h, hr]

end Named

/-! ## Tracks -/

section Tracks

variable {α : Type} [Scalar α]

theorem keysOf_releaseWrites_congr {held held' : OrderedMap String String}
    (h : held.Alike held') (c : Channel) (duration release : α) :
    keysOf c (releaseWrites duration release held') =
      keysOf c (releaseWrites duration release held) := by
  by_cases hc : c.property = .highlight
  · obtain ⟨property, id⟩ := c
    obtain rfl : property = .highlight := hc
    rw [keysOf_releaseWrites_highlight, keysOf_releaseWrites_highlight, h]
  · rw [keysOf_releaseWrites hc, keysOf_releaseWrites hc]

theorem Track.mem_ofWrites_iff {ws : List (Write α)} {track : Track α} :
    track ∈ ofWrites ws ↔ keysOf track.channel ws ≠ [] ∧
      track.keyframes = (arrange (keysOf track.channel ws)).toArray := by
  refine ⟨keyframes_of_mem_ofWrites, ?_⟩
  rintro ⟨hne, hkeys⟩
  have hfind := find?_ofWrites track.channel ws
  cases hlist : keysOf track.channel ws with
  | nil => exact absurd hlist hne
  | cons key rest =>
      rw [hlist] at hfind hkeys
      dsimp only at hfind
      rw [← hkeys] at hfind
      exact List.mem_of_find?_eq_some hfind

/-- Writes that come to the same on every channel come to the same tracks. -/
theorem Track.perm_ofWrites {ws ws' : List (Write α)} (h : ∀ c, keysOf c ws' = keysOf c ws) :
    (ofWrites ws').Perm (ofWrites ws) := by
  have hnodup := (nodup_channels_ofWrites ws).of_map
  have hnodup' := (nodup_channels_ofWrites ws').of_map
  refine (List.perm_ext_iff_of_nodup hnodup' hnodup).mpr fun track => ?_
  rw [mem_ofWrites_iff, mem_ofWrites_iff, h]

end Tracks

/-! ## Frames -/

section Frames

variable {α : Type}

/-- Playing a track changes neither the view nor the texts of a frame. -/
theorem Frame.scenery_play [Scalar α] (t : α) (f : Frame α) (track : Track α) :
    (f.play t track).view = f.view ∧ (f.play t track).subtitle = f.subtitle ∧
    (f.play t track).measurements = f.measurements := by
  unfold play set
  split
  · split <;> exact ⟨rfl, rfl, rfl⟩
  · exact ⟨rfl, rfl, rfl⟩

theorem Segment.scenery_frame [Analytic α] (s : Segment α) (globalTime localTime : α) :
    (s.frame globalTime localTime).view = CameraKey.viewAt s.cameraTrack localTime ∧
    (s.frame globalTime localTime).subtitle = s.narration ∧
    (s.frame globalTime localTime).measurements = s.measurements := by
  have htracks : ∀ (tracks : List (Track α)) (f : Frame α),
      (tracks.foldl (Frame.play localTime) f).view = f.view ∧
      (tracks.foldl (Frame.play localTime) f).subtitle = f.subtitle ∧
      (tracks.foldl (Frame.play localTime) f).measurements = f.measurements := by
    intro tracks
    induction tracks with
    | nil => exact fun f => ⟨rfl, rfl, rfl⟩
    | cons track rest ih =>
        intro f
        obtain ⟨hview, hsubtitle, hmeasurements⟩ := Frame.scenery_play localTime f track
        rw [List.foldl_cons, ← hview, ← hsubtitle, ← hmeasurements]
        exact ih (f.play localTime track)
  exact htracks s.tracks (s.blank globalTime localTime)

theorem Segment.track?_eq_some_iff {s : Segment α} (hnodup : (s.tracks.map Track.channel).Nodup)
    {c : Channel} {track : Track α} :
    s.track? c = some track ↔ track ∈ s.tracks ∧ track.channel = c := by
  unfold track?
  constructor
  · intro h
    exact ⟨List.mem_of_find?_eq_some h, by simpa using List.find?_some h⟩
  · rintro ⟨hmem, rfl⟩
    have hsome : (s.tracks.find? fun t => t.channel == track.channel).isSome = true :=
      List.find?_isSome.mpr ⟨track, hmem, by simp⟩
    obtain ⟨found, hfound⟩ := Option.isSome_iff_exists.mp hsome
    have hchannel : found.channel = track.channel := by simpa using List.find?_some hfound
    rw [hfound, List.inj_on_of_nodup_map hnodup (List.mem_of_find?_eq_some hfound) hmem hchannel]

/-- A channel has the same track in whatever order the tracks stand. -/
theorem track?_of_perm {s s' : Segment α} (h : s'.tracks.Perm s.tracks)
    (hnodup : (s.tracks.map Track.channel).Nodup) (c : Channel) : s'.track? c = s.track? c := by
  have hnodup' : (s'.tracks.map Track.channel).Nodup := (h.map _).nodup_iff.mpr hnodup
  ext track
  rw [Segment.track?_eq_some_iff hnodup, Segment.track?_eq_some_iff hnodup', h.mem_iff]

/-- Segments that are alike have frames that are alike. -/
theorem Segment.Alike.frame [Analytic α] {s s' : Segment α} (h : s.Alike s')
    (hnodup : (s.tracks.map Track.channel).Nodup) (globalTime localTime : α) :
    (s.frame globalTime localTime).Alike (s'.frame globalTime localTime) := by
  have hnodup' : (s'.tracks.map Track.channel).Nodup := (h.tracks.map _).nodup_iff.mpr hnodup
  have hvalue : ∀ c, (s'.frame globalTime localTime).value? c =
      (s.frame globalTime localTime).value? c := by
    intro c
    rw [value?_frame s hnodup, value?_frame s' hnodup', sample?, sample?,
      track?_of_perm h.tracks hnodup]
  obtain ⟨hsegment, hglobal, hlocal⟩ := s.times_frame globalTime localTime
  obtain ⟨hsegment', hglobal', hlocal'⟩ := s'.times_frame globalTime localTime
  obtain ⟨hview, hsubtitle, hmeasurements⟩ := s.scenery_frame globalTime localTime
  obtain ⟨hview', hsubtitle', hmeasurements'⟩ := s'.scenery_frame globalTime localTime
  exact {
    segment := by rw [hsegment, hsegment', h.id]
    globalTime := hglobal'.trans hglobal.symm
    localTime := hlocal'.trans hlocal.symm
    visible := fun id =>
      Option.map_injective (Function.injective_of_subsingleton _) (hvalue ⟨.visibility, id⟩)
    opacities := fun id => KeyValue.map_number_injective (hvalue ⟨.opacity, id⟩)
    highlights := fun id => KeyValue.map_color_injective (hvalue ⟨.highlight, id⟩)
    parameters := fun id => KeyValue.map_number_injective (hvalue ⟨.parameter, id⟩)
    angles := fun id => KeyValue.map_number_injective (hvalue ⟨.angle, id⟩)
    view := by rw [hview, hview', h.cameraTrack]
    subtitle := by rw [hsubtitle, hsubtitle', h.narration]
    measurements := by rw [hmeasurements, hmeasurements', h.measurements] }

end Frames

/-! ## Scenes -/

/--
Scenes that are told alike and timed alike, and of which the steps have cues that are
alike once those of the first have any.
-/
structure Scene.Accords {α : Type} [Scalar α] (m : Model α) (s s' : Scene α) : Prop where
  id : s'.id = s.id
  narration : s'.narration = s.narration
  camera : s'.camera = s.camera
  measurements : s'.measurements = s.measurements
  ending : Action.endInTurn 0 s'.actions = Action.endInTurn 0 s.actions
  cues : ∀ cues, untilError (s.timedSteps.map (Step.cue m s.id)) = (cues, none) →
    ∃ cues', untilError (s'.timedSteps.map (Step.cue m s.id)) = (cues', none) ∧
      CuesAlike cues cues'

theorem Scene.Accords.refl {α : Type} [Scalar α] (m : Model α) (s : Scene α) : s.Accords m s :=
  ⟨rfl, rfl, rfl, rfl, rfl, fun cues hcues => ⟨cues, hcues, fun _ => rfl⟩⟩

section Play

variable {α : Type} [Analytic α] {timing : Timing α} {fig : Figure α} {start : α}
  {stage stage' : Stage α} {registry registry' : Registry α}

theorem Stage.Alike.locate (h : stage.Alike stage') :
    fig.locate stage'.setting = fig.locate stage.setting := by
  have hparameters : ∀ id,
      stage'.setting.parameters.get? id = stage.setting.parameters.get? id :=
    fun id => KeyValue.map_number_injective (h ⟨.parameter, id⟩)
  have hangles : ∀ id, stage'.setting.angles.get? id = stage.setting.angles.get? id :=
    fun id => KeyValue.map_number_injective (h ⟨.angle, id⟩)
  exact funext (fig.sameValues_of_get?_eq hparameters hangles).locate

theorem Scene.Accords.cameraKey {m : Model α} {s s' : Scene α} (h : s.Accords m s')
    (hstage : stage.Alike stage') (hregistry : registry.Alike registry') :
    s'.cameraKey fig stage' registry' = s.cameraKey fig stage registry := by
  have hlookAt : lookAt fig stage' registry' = lookAt fig stage registry := by
    funext id
    unfold lookAt Element.locate
    rw [hregistry, hstage.locate]
  rw [Scene.cameraKey, Scene.cameraKey, h.camera, hlookAt]

/-- Scenes that accord, from stages that are alike, are produced alike. -/
theorem Scene.Accords.produce {s s' : Scene α} (h : s.Accords fig.model s')
    (hstage : stage.Alike stage') (hregistry : registry.Alike registry') {produced : Produced α}
    (hproduce : s.produce timing fig start stage registry = .ok produced) :
    ∃ produced', s'.produce timing fig start stage' registry' = .ok produced' ∧
      produced.segment.Alike produced'.segment ∧ produced.stage.Alike produced'.stage ∧
      produced.registry.Alike produced'.registry := by
  have hlength : s'.length timing = s.length timing := by
    rw [Scene.length, Scene.length, readingTime, readingTime, h.narration, h.ending]
  unfold Scene.produce at hproduce ⊢
  rw [h.cameraKey hstage hregistry]
  cases hkey : s.cameraKey fig stage registry with
  | error fault =>
      rw [hkey] at hproduce
      cases hproduce
  | ok key =>
      rw [hkey] at hproduce
      rcases hcues : untilError (s.timedSteps.map (Step.cue fig.model s.id)) with
        ⟨cues, _ | fault⟩
      · obtain ⟨cues', hcues', halike⟩ := h.cues cues hcues
        rw [hcues] at hproduce
        cases hproduce
        rw [h.id, hcues', hlength, h.narration, h.measurements]
        refine ⟨_, rfl, ⟨rfl, rfl, rfl, rfl, rfl, rfl, ?_⟩, ?_, halike.registered hregistry⟩
        · refine perm_ofWrites fun c => ?_
          simp only [keysOf_append, keysOf_writes]
          rw [hstage c, (Stage.follow_congr (hstage c) (halike c)).1,
            keysOf_releaseWrites_congr halike.held]
        · exact fun c => (Stage.follow_congr (hstage c) (halike c)).2
      · rw [hcues] at hproduce
        cases hproduce

namespace Script

/-- Scenes that accord one by one are produced alike. -/
theorem produceFrom_of_accords {scenes scenes' : List (Scene α)}
    (h : List.Forall₂ (Scene.Accords fig.model) scenes scenes') (hstage : stage.Alike stage')
    (hregistry : registry.Alike registry') {production : Production α}
    (hproduce : produceFrom timing fig start stage registry scenes = .ok production) :
    ∃ production', produceFrom timing fig start stage' registry' scenes' = .ok production' ∧
      production.Alike production' := by
  induction h generalizing start stage stage' registry registry' production with
  | nil =>
      cases hproduce
      exact ⟨_, rfl, rfl, .nil, hregistry⟩
  | @cons s s' rest rest' hscene _ ih =>
      rw [produceFrom] at hproduce
      split at hproduce
      next => cases hproduce
      next produced hproduced =>
        split at hproduce
        next => cases hproduce
        next rested hrested =>
          cases hproduce
          obtain ⟨produced', hproduced', hsegment, hstage', hregistry'⟩ :=
            hscene.produce hstage hregistry hproduced
          obtain ⟨rested', hrested', halike⟩ := ih hstage' hregistry' hrested
          rw [← hsegment.finish] at hrested'
          refine ⟨⟨⟨rested'.timeline.duration, produced'.segment :: rested'.timeline.segments⟩,
            rested'.registry⟩, ?_, halike.duration, .cons hsegment halike.segments,
            halike.registry⟩
          rw [produceFrom, hproduced']
          dsimp only
          rw [hrested']

end Script

end Play

/-! ## Playing a time -/

section Lookup

variable {β γ : Type} {R : β → γ → Prop} {l : List β} {l' : List γ}

theorem rel_getLast? (h : List.Forall₂ R l l') : Option.Rel R l.getLast? l'.getLast? := by
  have hreverse := List.rel_reverse h
  rw [List.getLast?_eq_head?_reverse, List.getLast?_eq_head?_reverse]
  generalize l.reverse = r, l'.reverse = r' at hreverse
  cases hreverse with
  | nil => exact .none
  | cons hb _ => exact .some hb

theorem rel_find? {p : β → Bool} {p' : γ → Bool} (hp : ∀ b b', R b b' → p' b' = p b)
    (h : List.Forall₂ R l l') : Option.Rel R (l.find? p) (l'.find? p') := by
  induction h with
  | nil => exact .none
  | @cons b b' rest rest' hb _ ih =>
      rw [List.find?_cons, List.find?_cons, hp b b' hb]
      split
      · exact .some hb
      · exact ih

end Lookup

/-- At every time segments that are alike are played. -/
theorem Production.Alike.segmentAt? {α : Type} [Scalar α] {p p' : Production α}
    (h : p.Alike p') (t : α) :
    Option.Rel Segment.Alike (p.timeline.segmentAt? t) (p'.timeline.segmentAt? t) := by
  have hlast := rel_getLast? h.segments
  have hfind : Option.Rel Segment.Alike
      (p.timeline.segments.find? fun s => decide (s.start ≤ t ∧ t < s.finish))
      (p'.timeline.segments.find? fun s => decide (s.start ≤ t ∧ t < s.finish)) :=
    rel_find? (fun s s' hs => by rw [hs.start, hs.finish]) h.segments
  rw [Timeline.segmentAt?, Timeline.segmentAt?, h.duration]
  split
  · exact hlast
  · revert hfind
    generalize p.timeline.segments.find? _ = found
    generalize p'.timeline.segments.find? _ = found'
    intro hfind
    cases hfind with
    | none => exact hlast
    | some hs => exact .some hs

/-- Productions that are alike have frames that are alike. -/
theorem Production.Alike.frame {α : Type} [Analytic α] {p p' : Production α} (h : p.Alike p')
    (hnodup : ∀ s ∈ p.timeline.segments, (s.tracks.map Track.channel).Nodup) {t : α}
    {f : Frame α} (hframe : p.timeline.frame t = .ok f) :
    ∃ f', p'.timeline.frame t = .ok f' ∧ f.Alike f' := by
  obtain ⟨s, hmem, hplaying, rfl⟩ := Timeline.frame_eq_ok hframe
  have hplayed := h.segmentAt? (timeWithin p.timeline.duration t)
  rw [Timeline.segmentPlaying_eq_ok.mp hplaying] at hplayed
  generalize hfound : p'.timeline.segmentAt? (timeWithin p.timeline.duration t) = found at hplayed
  cases hplayed with
  | @some _ s' hsegment =>
      have hplaying' : p'.timeline.segmentPlaying t = .ok s' := by
        rw [Timeline.segmentPlaying_eq_ok, h.duration, hfound]
      have hduration : s'.duration = s.duration := by
        rw [Segment.duration, Segment.duration, hsegment.start, hsegment.finish]
      refine ⟨_, ?_, hsegment.frame (hnodup s hmem) _ _⟩
      rw [Timeline.frame, hplaying', h.duration]
      change Except.ok (s'.frame _ (timeWithin s'.duration (_ - s'.start))) = _
      rw [hduration, hsegment.start]

end Storyboard
