import Storyboard.Proofs.Timeline.Elements

/-!
# What a camera looks at

A camera looks at a name, which the elements of the earlier scenes and the points of
the figure share.  An element comes first: the camera looks at its middle, also where a
point has the same name, and the origin has a name like any other point.  So a camera
looks at the point that it names exactly when no earlier scene has created an element of
that name, or the last one that did has its middle at the point.
-/

namespace Storyboard

variable {α : Type}

/-- The middle of an element, which is the mean of the points that it is drawn through. -/
def Element.middle [Analytic α] (e : Element α) (fig : Figure α) (setting : Setting α) :
    Except Fault (Vec α) := do
  let anchors ← e.locate fig setting
  return (Vec.centroid? anchors).getD 0

/-- The elements that the scenes before one of a script ask for, in document order. -/
def Script.creationsBefore [Scalar α] (s : Script α) (i : Nat) : List (Element α) :=
  ({ s with scenes := s.scenes.take i } : Script α).creations

/--
The element that has a name when a scene of a script begins: the last one that an earlier
scene has created under it, blanks at its ends apart.
-/
def Script.namesake? [Scalar α] (s : Script α) (i : Nat) (id : String) :
    Option (Element α) :=
  ((s.creationsBefore i).map Element.trimmed).reverse.find? fun e => e.id = id

/-! ## Elements by their names -/

/-- Of the elements that are registered under a name the last one stays. -/
theorem Registry.get?_foldl_register (r : Registry α) (elements : List (Element α))
    (id : String) :
    (elements.foldl register r).get? id =
      (elements.reverse.find? fun e => e.id = id).or (r.get? id) := by
  rw [foldl_register_eq_insertAll, OrderedMap.get?_insertAll, ← List.map_reverse, List.find?_map,
    Option.map_map]
  exact congrArg (Option.or · _) Option.map_id'

namespace Script

/-- No element has a name exactly if none of the earlier scenes asks for one. -/
theorem namesake?_eq_none_iff [Scalar α] {s : Script α} {i : Nat} {id : String} :
    s.namesake? i id = none ↔ ∀ e ∈ s.creationsBefore i, Text.trim e.id ≠ id := by
  simp [namesake?, Element.trimmed]

variable [Analytic α]

/-- What a scene is handed has been registered by the scenes before it. -/
theorem registry_of_performFrom {timing : Timing α} {fig : Figure α} {start : α}
    {stage : Stage α} {registry : Registry α} {scenes : List (Scene α)} (k : Nat) {i : Nat}
    {p : Performance α}
    (h : (performFrom timing fig start stage registry scenes)[i]? = some p) :
    p.registry =
      ((Storyboard.creations ((((scenes.take i).zipIdx k).flatMap fun (s, j) =>
        s.located j).map Prod.snd)).map Element.trimmed).foldl Registry.register registry := by
  induction scenes generalizing start stage registry k i with
  | nil => cases h
  | cons s rest ih =>
      rw [performFrom] at h
      split at h
      next => cases h
      next produced hproduce =>
        cases i with
        | zero =>
            cases h
            rfl
        | succ i =>
            rw [ih (k + 1) h, Scene.registry_of_produce k hproduce, ← List.foldl_append,
              ← List.map_append, ← creations_append, ← List.map_append, List.take_succ_cons,
              List.zipIdx_cons, List.flatMap_cons]

/-- The element that a scene finds under a name is the namesake from the scenes before. -/
theorem get?_registry_of_performances {timing : Timing α} {m : Model α} {s : Script α}
    {i : Nat} {p : Performance α} (h : (s.performances timing m)[i]? = some p) (id : String) :
    p.registry.get? id = s.namesake? i id := by
  rw [performances] at h
  split at h
  next => cases h
  next fig hfig =>
    rw [registry_of_performFrom 0 h, Registry.get?_foldl_register]
    exact Option.or_none

end Script

/-! ## The key of the camera -/

section Camera

variable [Analytic α]

theorem Camera.lookAt_shot_of_preset {camera : Camera α} (h : ∀ shot, camera ≠ .full shot) :
    camera.shot.lookAt = centerId := by
  cases camera with
  | full shot => exact absurd rfl (h shot)
  | preset name => rfl
  | unread raw => rfl

namespace Scene

/-- The track of the camera of a scene is its one key. -/
theorem cameraTrack_of_produce {timing : Timing α} {fig : Figure α} {start : α}
    {stage : Stage α} {registry : Registry α} {s : Scene α} {produced : Produced α}
    (h : s.produce timing fig start stage registry = .ok produced) :
    ∃ key, s.cameraKey fig stage registry = .ok key ∧
      produced.segment.cameraTrack = #[key] := by
  unfold produce at h
  cases hkey : s.cameraKey fig stage registry with
  | error fault =>
      rw [hkey] at h
      cases h
  | ok key =>
      rw [hkey] at h
      rcases hcues : untilError (s.timedSteps.map (Step.cue fig.model s.id)) with
        ⟨cues, _ | fault⟩
      · rw [hcues] at h
        cases h
        exact ⟨key, rfl, rfl⟩
      · rw [hcues] at h
        cases h

theorem lookAt_of_cameraKey {fig : Figure α} {stage : Stage α} {registry : Registry α}
    {s : Scene α} {key : CameraKey α} (h : s.cameraKey fig stage registry = .ok key) :
    lookAt fig stage registry s.camera.shot.lookAt = .ok key.lookAt := by
  change Except.map _ (lookAt fig stage registry s.camera.shot.lookAt) = .ok key at h
  cases hlookAt : lookAt fig stage registry s.camera.shot.lookAt with
  | error fault =>
      rw [hlookAt] at h
      cases h
  | ok target =>
      rw [hlookAt] at h
      cases h
      rfl

/--
Where a look finds a place, it is that of the point exactly if the element that is
found in its stead, if any, has its middle there.
-/
theorem locate_eq_ok_iff_of_lookAt {fig : Figure α} {stage : Stage α} {registry : Registry α}
    {id : String} {target : Vec α} (h : lookAt fig stage registry id = .ok target) :
    fig.locate stage.setting id = .ok target ↔
      ∀ e, registry.get? id = some e →
        e.middle fig stage.setting = fig.locate stage.setting id := by
  unfold lookAt at h
  cases hfound : registry.get? id with
  | none =>
      rw [hfound] at h
      exact ⟨fun _ e he => (Option.some_ne_none e he.symm).elim, fun _ => h⟩
  | some e =>
      rw [hfound] at h
      have hmiddle : e.middle fig stage.setting = .ok target := h
      constructor
      · rintro hpoint e' ⟨⟩
        exact hmiddle.trans hpoint.symm
      · intro hall
        exact (hall e rfl).symm.trans hmiddle

end Scene

end Camera

namespace Script

/--
In each scene of a script that is produced, the key of the camera looks at the point that
the camera names, where the scene begins, exactly if the element that earlier scenes have
left under this name, if any, has its middle there.  A camera that is not given in full
names the origin, and so looks at it under the same condition.
-/
theorem lookAt_eq_point_iff [Analytic α] {timing : Timing α} {m : Model α} {fig : Figure α}
    {s : Script α} {production : Production α} {i : Nat} {p : Performance α}
    (hfig : m.figure = .ok fig) (h : s.produce timing m = .ok production)
    (hp : (s.performances timing m)[i]? = some p) :
    s.scenes[i]? = some p.scene ∧
    ∃ segment key, production.timeline.segments[i]? = some segment ∧
      segment.cameraTrack = #[key] ∧
      (fig.locate p.stage.setting p.scene.camera.shot.lookAt = .ok key.lookAt ↔
        ∀ e, s.namesake? i p.scene.camera.shot.lookAt = some e →
          e.middle fig p.stage.setting =
            fig.locate p.stage.setting p.scene.camera.shot.lookAt) ∧
      ((∀ shot, p.scene.camera ≠ .full shot) →
        (key.lookAt = 0 ↔ ∀ e, s.namesake? i centerId = some e →
          e.middle fig p.stage.setting = .ok 0)) := by
  obtain ⟨hscenes, hsegments⟩ := segments_of_produce h
  have hscene : s.scenes[i]? = some p.scene := by
    rw [← hscenes, List.getElem?_map, hp, Option.map_some]
  have hsegment : production.timeline.segments[i]? = some p.segment := by
    rw [hsegments, List.getElem?_map, hp, Option.map_some]
  have hproduce : p.scene.produce timing fig p.start p.stage p.registry = .ok p.produced := by
    rw [performances, hfig] at hp
    exact produce_of_mem_performFrom (List.mem_of_getElem? hp)
  obtain ⟨key, hkey, htrack⟩ := Scene.cameraTrack_of_produce hproduce
  have hiff := Scene.locate_eq_ok_iff_of_lookAt (Scene.lookAt_of_cameraKey hkey)
  simp only [get?_registry_of_performances hp] at hiff
  refine ⟨hscene, p.segment, key, hsegment, htrack, hiff, fun hpreset => ?_⟩
  -- a preset names the origin, which is located without regard to elements
  rw [Camera.lookAt_shot_of_preset hpreset, Figure.locate_center, Except.ok.injEq] at hiff
  exact eq_comm.trans hiff

/-- A script that draws an edge of the square under a name, and then only looks. -/
def edgeScript (name : String) (camera : Camera Float) : Script Float :=
  ⟨"", [
    ⟨"edge", "The edge.", Camera.standard,
      [.step (.create (some name) none (.line "A" "B" none))], none⟩,
    ⟨"look", "Look.", camera, [], none⟩]⟩

/-- A camera in full that looks at a corner of the square. -/
def cornerCamera : Camera Float := .full ⟨⟨2.5, 45.0, 35.0⟩, "A", .ease⟩

/-- An edge of another name leaves the corner to the camera. -/
theorem lookAt_eq_point_iff_corner :
    ∃ fig production p segment key, plainSquare.figure = .ok fig ∧
      (edgeScript "edge" cornerCamera).produce Timing.usual plainSquare = .ok production ∧
      ((edgeScript "edge" cornerCamera).performances Timing.usual plainSquare)[1]? = some p ∧
      production.timeline.segments[1]? = some segment ∧ segment.cameraTrack = #[key] ∧
      fig.locate p.stage.setting "A" = .ok key.lookAt := by
  obtain ⟨fig, hfig⟩ : ∃ fig, (plainSquare : Model Float).figure = .ok fig := ⟨_, rfl⟩
  obtain ⟨production, h⟩ : ∃ production,
      (edgeScript "edge" cornerCamera).produce Timing.usual plainSquare = .ok production :=
    exists_ok_of_isOk (by decide +kernel)
  obtain ⟨p, hp⟩ : ∃ p,
      ((edgeScript "edge" cornerCamera).performances Timing.usual plainSquare)[1]? = some p :=
    Option.isSome_iff_exists.mp (by decide +kernel)
  obtain ⟨hscene, segment, key, hsegment, htrack, hiff, -⟩ := lookAt_eq_point_iff hfig h hp
  have hname : p.scene.camera.shot.lookAt = "A" := by
    rw [← Option.some.inj hscene]
    rfl
  have hnone : (edgeScript "edge" cornerCamera).namesake? 1 "A" = none :=
    namesake?_eq_none_iff.mpr (by decide +kernel)
  rw [hname, hnone] at hiff
  exact ⟨fig, production, p, segment, key, hfig, h, hp, hsegment, htrack,
    hiff.mpr fun _ he => nomatch he⟩

/-- An edge of the name of the origin turns away the camera that comes after it. -/
theorem exists_preset_not_at_center :
    ((edgeScript "center" Camera.standard).review Standards.usual plainSquare).valid = true ∧
    ∃ fig production p, plainSquare.figure = .ok fig ∧
      (edgeScript "center" Camera.standard).produce Timing.usual plainSquare =
        .ok production ∧
      ((edgeScript "center" Camera.standard).performances Timing.usual plainSquare)[1]? =
        some p ∧
      p.scene.camera.shot.lookAt = "center" ∧
      p.segment.cameraTrack.toList.map CameraKey.lookAt = [⟨0, -0.5, 0⟩] ∧
      fig.locate p.stage.setting "center" = .ok 0 ∧
      (⟨0, -0.5, 0⟩ : Vec Float) ≠ 0 := by
  refine ⟨by decide +kernel, ?_⟩
  obtain ⟨fig, hfig⟩ : ∃ fig, (plainSquare : Model Float).figure = .ok fig := ⟨_, rfl⟩
  obtain ⟨production, h⟩ : ∃ production,
      (edgeScript "center" Camera.standard).produce Timing.usual plainSquare = .ok production :=
    exists_ok_of_isOk (by decide +kernel)
  have hrun : ((edgeScript "center" Camera.standard).performances Timing.usual
      plainSquare)[1]?.map (fun p =>
        (p.scene.camera.shot.lookAt, p.segment.cameraTrack.toList.map CameraKey.lookAt)) =
      some ("center", [⟨0, -0.5, 0⟩]) := by decide +kernel
  obtain ⟨p, hp, hlook⟩ := Option.map_eq_some_iff.mp hrun
  obtain ⟨hname, htrack⟩ := Prod.mk.inj hlook
  exact ⟨fig, production, p, hfig, h, hp, hname, htrack, Figure.locate_center fig _,
    by decide +kernel⟩

end Script

end Storyboard
