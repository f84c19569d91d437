import Storyboard.Proofs.Review.Meaning
import Storyboard.Proofs.Review.Steady

/-!
# The log of a repair

What a repair may change are the presets and the elevations of cameras, the names of
scenes, and the names of elements, each of them at a path of its own.  Each pass of a
repair goes through the data of one kind in the order of the script, and logs a fix
where it leaves another datum than there was.  Taken together the fixes log the way
from the data of a script to those of the mended script, and the rest of the script
is let be.
-/

namespace Storyboard

variable {α : Type}

/-! ## Data and their paths -/

/-- What stands where a name belongs. -/
def Datum.ofName : Option String → Datum α
  | none => .absent
  | some id => .text id

/-- The preset of a camera or its elevation, with its path. -/
def Camera.data (path : String) : Camera α → List (String × Datum α)
  | .preset name => [(path, .text name)]
  | .full shot => [(path ++ ".spherical.phi", .number shot.position.phi)]
  | .unread _ => []

/-- The name that a step gives to an element it creates, with its path. -/
def Step.data (place : Place) (s : Step α) : List (String × Datum α) :=
  (s.createdId?.map fun id => (place.field "id", Datum.ofName id)).toList

/-- The data of the cameras of scenes from the `i`-th on. -/
def Camera.dataFrom (i : Nat) (cameras : List (Camera α)) : List (String × Datum α) :=
  (cameras.zipIdx i).flatMap fun (c, j) => c.data (scenePath j ++ ".camera")

/-- The names of scenes from the `i`-th on, with their paths. -/
def Scene.nameData (i : Nat) (ids : List String) : List (String × Datum α) :=
  (ids.zipIdx i).map fun (id, j) => (scenePath j ++ ".id", .text id)

/-- The names of the elements that some steps create, with their paths. -/
def Step.dataOf (steps : List (Place × Step α)) : List (String × Datum α) :=
  steps.flatMap fun e => e.2.data e.1

/--
What a repair may change in a script, with its path: the preset or the elevation of
each camera, the name of each scene, and the name of each element.
-/
def Script.data (s : Script α) : List (String × Datum α) :=
  Camera.dataFrom 0 (s.scenes.map Scene.camera) ++ Scene.nameData 0 (s.scenes.map Scene.id) ++
    Step.dataOf s.located

/-- A path in a scene is told apart by the index of the scene and by the rest. -/
theorem Place.scenePath_append_inj {i j : Nat} {rest rest' : String}
    (h : scenePath i ++ rest = scenePath j ++ rest') : i = j ∧ rest = rest' := by
  have hlist := congrArg String.toList h
  simp only [scenePath, String.toList_append, List.append_assoc] at hlist
  obtain ⟨hindex, hrest⟩ := bracketed_append_inj (List.append_cancel_left hlist)
  exact ⟨hindex, String.toList_inj.mp hrest⟩

theorem Camera.path_of_mem_data {path : String} {c : Camera α} {e : String × Datum α}
    (h : e ∈ c.data path) : e.1 = path ∨ e.1 = path ++ ".spherical.phi" := by
  cases c with
  | preset name => exact Or.inl (congrArg Prod.fst (List.mem_singleton.mp h))
  | full shot => exact Or.inr (congrArg Prod.fst (List.mem_singleton.mp h))
  | unread raw => exact absurd h List.not_mem_nil

theorem Camera.path_of_mem_dataFrom {i : Nat} {cameras : List (Camera α)}
    {e : String × Datum α} (h : e ∈ dataFrom i cameras) :
    ∃ j, e.1 = scenePath j ++ ".camera" ∨ e.1 = scenePath j ++ ".camera" ++ ".spherical.phi" := by
  obtain ⟨⟨c, j⟩, -, h⟩ := List.mem_flatMap.mp h
  exact ⟨j, path_of_mem_data h⟩

theorem Scene.path_of_mem_nameData {i : Nat} {ids : List String} {e : String × Datum α}
    (h : e ∈ nameData i ids) : ∃ j, e.1 = scenePath j ++ ".id" := by
  obtain ⟨⟨id, j⟩, -, rfl⟩ := List.mem_map.mp h
  exact ⟨j, rfl⟩

/-- The data of the scenes themselves are at no path of the name of an element. -/
theorem Place.IsInScene.path_ne_field_id {place : Place} {i : Nat} (h : place.IsInScene i)
    {cameras : List (Camera α)} {ids : List String} {e : String × Datum α}
    (he : e ∈ Camera.dataFrom 0 cameras ++ Scene.nameData 0 ids) : e.1 ≠ place.field "id" := by
  intro heq
  rcases List.mem_append.mp he with he | he
  · obtain ⟨j, hj | hj⟩ := Camera.path_of_mem_dataFrom he
    · exact (Script.field_id_ne_camera place _).1 (heq.symm.trans hj)
    · exact (Script.field_id_ne_camera place _).2 (heq.symm.trans hj)
  · obtain ⟨j, hj⟩ := Scene.path_of_mem_nameData he
    exact h.field_id_ne_scenePath j (heq.symm.trans hj)

theorem Step.mem_dataOf {steps : List (Place × Step α)} {e : String × Datum α} :
    e ∈ dataOf steps ↔ ∃ place s id, (place, s) ∈ steps ∧ s.createdId? = some id ∧
      e = (place.field "id", Datum.ofName id) := by
  constructor
  · intro h
    obtain ⟨⟨place, s⟩, hs, h⟩ := List.mem_flatMap.mp h
    obtain ⟨id, hid, rfl⟩ := Option.map_eq_some_iff.mp (Option.mem_toList.mp h)
    exact ⟨place, s, id, hs, hid, rfl⟩
  · rintro ⟨place, s, id, hs, hid, rfl⟩
    refine List.mem_flatMap.mpr ⟨(place, s), hs, Option.mem_toList.mpr ?_⟩
    exact Option.map_eq_some_iff.mpr ⟨id, hid, rfl⟩

theorem Camera.nodup_dataFrom (i : Nat) (cameras : List (Camera α)) :
    ((dataFrom i cameras).map Prod.fst).Nodup := by
  rw [dataFrom, List.map_flatMap]
  refine List.nodup_flatMap.mpr ⟨?_, ?_⟩
  · rintro ⟨c, j⟩ -
    cases c with
    | preset name => exact List.nodup_singleton _
    | full shot => exact List.nodup_singleton _
    | unread raw => exact List.nodup_nil
  · refine (pairwise_zipIdx cameras i).imp fun {e e'} hne => ?_
    apply List.disjoint_left.mpr
    intro path hpath hpath'
    obtain ⟨x, hx, rfl⟩ := List.mem_map.mp hpath
    obtain ⟨y, hy, heq⟩ := List.mem_map.mp hpath'
    have hscene : ∀ {c : Camera α} {j : Nat} {z : String × Datum α},
        z ∈ c.data (scenePath j ++ ".camera") → ∃ rest, z.1 = scenePath j ++ rest := by
      intro c j z hz
      rcases path_of_mem_data hz with h | h
      · exact ⟨_, h⟩
      · exact ⟨_, h.trans String.append_assoc⟩
    obtain ⟨rest, hrest⟩ := hscene hx
    obtain ⟨rest', hrest'⟩ := hscene hy
    exact hne (Place.scenePath_append_inj (hrest.symm.trans (heq.symm.trans hrest'))).1

theorem Scene.nodup_nameData (i : Nat) (ids : List String) :
    ((nameData i ids : List (String × Datum α)).map Prod.fst).Nodup := by
  rw [nameData, List.map_map]
  refine List.pairwise_map.mpr ((pairwise_zipIdx ids i).imp fun {e e'} hne heq => ?_)
  exact hne (Place.scenePath_append_inj heq).1

namespace Script

theorem nodup_dataOf_located (s : Script α) : ((Step.dataOf s.located).map Prod.fst).Nodup := by
  rw [Step.dataOf, List.map_flatMap]
  refine List.nodup_flatMap.mpr ⟨?_, ?_⟩
  · rintro ⟨place, step⟩ -
    dsimp only [Step.data]
    cases step.createdId? with
    | none => exact List.nodup_nil
    | some id => exact List.nodup_singleton _
  · have hplaces : s.located.Pairwise fun e e' => e.1 ≠ e'.1 :=
      List.pairwise_map.mp s.nodup_located
    refine (List.Pairwise.and_mem.mp hplaces).imp ?_
    rintro ⟨place, step⟩ ⟨place', step'⟩ ⟨hmem, hmem', hne⟩
    apply List.disjoint_left.mpr
    intro path hpath hpath'
    obtain ⟨x, hx, rfl⟩ := List.mem_map.mp hpath
    obtain ⟨y, hy, heq⟩ := List.mem_map.mp hpath'
    obtain ⟨id, -, rfl⟩ := Option.map_eq_some_iff.mp (Option.mem_toList.mp hx)
    obtain ⟨id', -, rfl⟩ := Option.map_eq_some_iff.mp (Option.mem_toList.mp hy)
    obtain ⟨i, hplace⟩ := exists_isInScene_of_mem_located hmem
    obtain ⟨j, hplace'⟩ := exists_isInScene_of_mem_located hmem'
    exact hne (hplace.eq_of_field_id hplace' heq.symm)

/-- No two data of a script are at the same path. -/
theorem nodup_data (s : Script α) : (s.data.map Prod.fst).Nodup := by
  rw [data, List.map_append, List.map_append]
  refine List.nodup_append.mpr ⟨List.nodup_append.mpr ⟨Camera.nodup_dataFrom 0 _,
    Scene.nodup_nameData 0 _, ?_⟩, s.nodup_dataOf_located, ?_⟩
  · intro path hpath path' hpath' heq
    obtain ⟨x, hx, rfl⟩ := List.mem_map.mp hpath
    obtain ⟨y, hy, rfl⟩ := List.mem_map.mp hpath'
    obtain ⟨j, hy⟩ := Scene.path_of_mem_nameData hy
    rw [hy] at heq
    obtain ⟨i, hx | hx⟩ := Camera.path_of_mem_dataFrom hx
    · exact absurd (Place.scenePath_append_inj (hx.symm.trans heq)).2 (by decide)
    · rw [String.append_assoc] at hx
      exact absurd (Place.scenePath_append_inj (hx.symm.trans heq)).2 (by decide)
  · rw [← List.map_append]
    intro path hpath path' hpath' heq
    obtain ⟨x, hx, rfl⟩ := List.mem_map.mp hpath
    obtain ⟨y, hy, rfl⟩ := List.mem_map.mp hpath'
    obtain ⟨place, step, id, hstep, -, rfl⟩ := Step.mem_dataOf.mp hy
    obtain ⟨i, hplace⟩ := exists_isInScene_of_mem_located hstep
    exact hplace.path_ne_field_id hx heq

/-- What is at a path of a script is the only datum there. -/
theorem mem_data_iff {s : Script α} {path : String} {d : Datum α} (h : (path, d) ∈ s.data)
    (d' : Datum α) : (path, d') ∈ s.data ↔ d' = d := by
  constructor
  · intro h'
    exact congrArg Prod.snd (List.inj_on_of_nodup_map s.nodup_data h' h rfl)
  · rintro rfl
    exact h

end Script

/-! ## Logs -/

/-- Some fixes log what becomes of some data, one datum after the other. -/
inductive Logs : List (Fix α) → List (String × Datum α) → List (String × Datum α) → Prop where
  | nil : Logs [] [] []
  | kept (e : String × Datum α) {fixes : List (Fix α)} {data data' : List (String × Datum α)}
      (h : Logs fixes data data') : Logs fixes (e :: data) (e :: data')
  | fixed (f : Fix α) {fixes : List (Fix α)} {data data' : List (String × Datum α)}
      (hne : f.before ≠ f.after) (h : Logs fixes data data') :
      Logs (f :: fixes) ((f.path, f.before) :: data) ((f.path, f.after) :: data')

namespace Logs

variable {fixes fixes' : List (Fix α)} {data data' more more' : List (String × Datum α)}

theorem refl (data : List (String × Datum α)) : Logs [] data data := by
  induction data with
  | nil => exact nil
  | cons e rest ih => exact ih.kept e

/-- A single datum that is fixed. -/
theorem single (f : Fix α) (hne : f.before ≠ f.after) :
    Logs [f] [(f.path, f.before)] [(f.path, f.after)] := nil.fixed f hne

theorem append (h : Logs fixes data data') (h' : Logs fixes' more more') :
    Logs (fixes ++ fixes') (data ++ more) (data' ++ more') := by
  induction h with
  | nil => exact h'
  | kept e _ ih => exact ih.kept e
  | fixed f hne _ ih => exact ih.fixed f hne

/-- What is logged is logged in the order of the data. -/
theorem sublist (h : Logs fixes data data') :
    (fixes.map Fix.path).Sublist (data.map Prod.fst) := by
  induction h with
  | nil => exact List.Sublist.slnil
  | kept e _ ih => exact ih.cons _
  | fixed f _ _ ih => exact ih.cons_cons _

theorem mem (h : Logs fixes data data') {f : Fix α} (hf : f ∈ fixes) :
    (f.path, f.before) ∈ data ∧ (f.path, f.after) ∈ data' ∧ f.before ≠ f.after := by
  induction h with
  | nil => exact absurd hf List.not_mem_nil
  | kept e _ ih =>
      obtain ⟨hbefore, hafter, hne⟩ := ih hf
      exact ⟨List.mem_cons_of_mem _ hbefore, List.mem_cons_of_mem _ hafter, hne⟩
  | fixed f' hne' _ ih =>
      rcases List.mem_cons.mp hf with rfl | hf
      · exact ⟨List.mem_cons_self, List.mem_cons_self, hne'⟩
      · obtain ⟨hbefore, hafter, hne⟩ := ih hf
        exact ⟨List.mem_cons_of_mem _ hbefore, List.mem_cons_of_mem _ hafter, hne⟩

end Logs

/-! ## Each pass logs what it changes -/

/-- An elevation that is out of bounds is none that has been clamped. -/
theorem Scalar.ne_clamp [Scalar α] [FiniteOrder α] {phi : α} (h : phi < 0 ∨ zenith < phi) :
    phi ≠ clamp 0 zenith phi := by
  unfold clamp
  split_ifs with hlow hhigh
  · rintro rfl
    exact FiniteOrder.not_lt_self _ hlow
  · rintro rfl
    exact FiniteOrder.not_lt_self _ hhigh
  · exact absurd h (not_or.mpr ⟨hlow, hhigh⟩)

theorem Camera.logs_repaired [Scalar α] [FiniteOrder α] (path : String) (c : Camera α) :
    Logs (c.repaired path).2 (c.data path) ((c.repaired path).1.data path) := by
  cases c with
  | preset name =>
      by_cases hname : (Preset.ofName? name).isNone = true
      · rw [repaired, if_pos hname]
        apply Logs.single ⟨.invalidPreset, path, .text name, .text Preset.standard.name⟩
        intro heq
        rw [Datum.text.inj heq] at hname
        exact absurd hname (by decide)
      · rw [repaired, if_neg hname]
        exact Logs.refl _
  | full shot =>
      by_cases hbounds : shot.position.phi < 0 ∨ zenith < shot.position.phi
      · simp only [repaired, if_pos hbounds]
        apply Logs.single ⟨.invalidElevation, path ++ ".spherical.phi", .number _, .number _⟩
        exact fun heq => Scalar.ne_clamp hbounds (Datum.number.inj heq)
      · simp only [repaired, if_neg hbounds]
        exact Logs.refl _
  | unread raw => exact Logs.nil

/-- A step is mended with a fix if its element gets another name, and without any else. -/
theorem Mending.logs_step (m : Mending α) (place : Place) (s : Step α) :
    ∃ fixes, (m.step place s).1.fixes = m.fixes ++ fixes ∧
      Logs fixes (s.data place) ((m.step place s).2.data place) := by
  have hrenamed : ∀ (kind : Defect) (id : Option String) (name : String)
      (color : Option String) (shape : Shape α), id ≠ some name →
      Logs [⟨kind, place.field "id", Datum.ofName id, .text name⟩]
        ((Step.create id color shape).data place)
        ((Step.create (some name) color shape).data place) := by
    intro kind id name color shape hne
    apply Logs.single ⟨kind, place.field "id", Datum.ofName id, .text name⟩
    intro heq
    cases id with
    | none => cases heq
    | some id => exact hne (congrArg some (Datum.text.inj heq))
  cases hcreated : s.createdId? with
  | none =>
      obtain ⟨hs, hfixes, -⟩ := m.step_of_createdId?_eq_none place hcreated
      rw [hs, hfixes]
      exact ⟨[], (List.append_nil _).symm, Logs.refl _⟩
  | some id =>
      obtain ⟨color, shape, rfl⟩ := Step.eq_create_of_createdId? hcreated
      cases id with
      | none => exact ⟨_, rfl, hrenamed .missingId none _ color shape (Option.some_ne_none _).symm⟩
      | some id =>
          rw [step_create_some]
          split_ifs with hblank htaken
          · refine ⟨_, rfl, hrenamed .missingId (some id) _ color shape fun heq => ?_⟩
            rw [Option.some_inj.mp heq, isBlank_freeName shape.isBlank_madeUpName] at hblank
            cases hblank
          · refine ⟨_, rfl, hrenamed .duplicateId (some id) _ color shape fun heq => ?_⟩
            have hfree := freeName_not_mem m.taken id
            rw [← Option.some_inj.mp heq] at hfree
            exact hfree (List.contains_iff_mem.mp htaken)
          · exact ⟨[], (List.append_nil _).symm, Logs.refl _⟩

theorem Mending.logs_handOn (m : Mending α) (steps : List (Place × Step α)) :
    ∃ fixes, (Action.handOn step m steps).1.fixes = m.fixes ++ fixes ∧
      Logs fixes (Step.dataOf steps) (Step.dataOf (Action.handOn step m steps).2) := by
  induction steps generalizing m with
  | nil => exact ⟨[], (List.append_nil _).symm, Logs.nil⟩
  | cons e rest ih =>
      obtain ⟨first, hfirst, hlogs⟩ := m.logs_step e.1 e.2
      obtain ⟨others, hothers, hlogs'⟩ := ih (m.step e.1 e.2).1
      rw [hfirst, List.append_assoc] at hothers
      exact ⟨first ++ others, hothers, hlogs.append hlogs'⟩

namespace Script

theorem logs_repairCameras [Scalar α] [FiniteOrder α] (i : Nat) (scenes : List (Scene α)) :
    Logs (repairCameras i scenes).2 (Camera.dataFrom i (scenes.map Scene.camera))
      (Camera.dataFrom i ((repairCameras i scenes).1.map Scene.camera)) := by
  induction scenes generalizing i with
  | nil => exact Logs.nil
  | cons s rest ih =>
      simp only [repairCameras, Camera.dataFrom, List.map_cons, List.zipIdx_cons,
        List.flatMap_cons]
      exact (s.camera.logs_repaired _).append (ih (i + 1))

theorem logs_repairSceneIds (taken : List String) (i : Nat) (scenes : List (Scene α)) :
    Logs (repairSceneIds taken i scenes).2 (Scene.nameData i (scenes.map Scene.id))
      (Scene.nameData i ((repairSceneIds taken i scenes).1.map Scene.id)) := by
  induction scenes generalizing taken i with
  | nil => exact Logs.nil
  | cons s rest ih =>
      by_cases htaken : taken.contains s.id = true
      · simp only [repairSceneIds, if_pos htaken, Scene.nameData, List.map_cons,
          List.zipIdx_cons]
        refine (ih _ (i + 1)).fixed
          ⟨.duplicateId, scenePath i ++ ".id", .text s.id, .text (freeName taken s.id)⟩ ?_
        intro heq
        have hfree := freeName_not_mem taken s.id
        rw [← Datum.text.inj heq] at hfree
        exact hfree (List.contains_iff_mem.mp htaken)
      · simp only [repairSceneIds, if_neg htaken, Scene.nameData, List.map_cons,
          List.zipIdx_cons]
        exact (ih _ (i + 1)).kept _

theorem map_id_repairCameras [Scalar α] (i : Nat) (scenes : List (Scene α)) :
    (repairCameras i scenes).1.map Scene.id = scenes.map Scene.id := by
  induction scenes generalizing i with
  | nil => rfl
  | cons s rest ih => exact congrArg (s.id :: ·) (ih (i + 1))

theorem map_camera_repairSceneIds (taken : List String) (i : Nat) (scenes : List (Scene α)) :
    (repairSceneIds taken i scenes).1.map Scene.camera = scenes.map Scene.camera := by
  induction scenes generalizing taken i with
  | nil => rfl
  | cons s rest ih =>
      rw [repairSceneIds]
      split_ifs
      · exact congrArg (s.camera :: ·) (ih _ (i + 1))
      · exact congrArg (s.camera :: ·) (ih _ (i + 1))

theorem map_repairActions {β : Type} {f : Scene α → β}
    (hf : ∀ (s : Scene α) (actions : List (Action α)), f { s with actions } = f s)
    (m : Mending α) (i : Nat) (scenes : List (Scene α)) :
    (repairActions m i scenes).1.map f = scenes.map f := by
  induction scenes generalizing m i with
  | nil => rfl
  | cons s rest ih =>
      rw [repairActions, List.map_cons, List.map_cons, ih, hf]

/-- The fixes of a script log what becomes of its data. -/
theorem logs_mended [Scalar α] [FiniteOrder α] (s : Script α) :
    Logs s.mended.2 s.data s.mended.1.data := by
  obtain ⟨fixes, hfixes, hsteps⟩ := Mending.logs_handOn ⟨[], []⟩ s.located
  have hcameras : s.mended.1.scenes.map Scene.camera =
      (repairCameras 0 s.scenes).1.map Scene.camera :=
    (map_repairActions (fun _ _ => rfl) _ 0 _).trans (map_camera_repairSceneIds [] 0 _)
  have hids : s.mended.1.scenes.map Scene.id =
      (repairSceneIds [] 0 (repairCameras 0 s.scenes).1).1.map Scene.id :=
    map_repairActions (fun _ _ => rfl) _ 0 _
  have hnames := logs_repairSceneIds [] 0 (repairCameras 0 s.scenes).1
  rw [map_id_repairCameras] at hnames
  rw [data, data, fixes_mended, hcameras, hids, located_mended, hfixes]
  exact ((logs_repairCameras 0 s.scenes).append hnames).append hsteps

end Script

/-! ## The rest of a script -/

/-- A camera without its preset or its elevation, if the path of that is among some paths. -/
def Camera.apartFrom [Scalar α] (paths : List String) (path : String) : Camera α → Camera α
  | .preset name => .preset (if path ∈ paths then "" else name)
  | .full shot =>
    let phi := if path ++ ".spherical.phi" ∈ paths then 0 else shot.position.phi
    .full { shot with position := { shot.position with phi } }
  | .unread raw => .unread raw

/-- A step without the name that it gives to an element, if the path of that is among some paths. -/
def Step.apartFrom (paths : List String) (place : Place) : Step α → Step α
  | .create id color shape => .create (if place.field "id" ∈ paths then none else id) color shape
  | s => s

/-- Actions at a place without the names whose paths are among some paths. -/
def Action.apartFrom (paths : List String) (place : Place) (actions : List (Action α)) :
    List (Action α) :=
  (traverseFrom (fun _ place s => ((), s.apartFrom paths place)) place 0 () actions).2

/-- A scene without what is at some paths. -/
def Scene.apartFrom [Scalar α] (paths : List String) (i : Nat) (s : Scene α) : Scene α :=
  { s with
    id := if scenePath i ++ ".id" ∈ paths then "" else s.id
    camera := s.camera.apartFrom paths (scenePath i ++ ".camera")
    actions := Action.apartFrom paths (Place.ofScene i) s.actions }

/-- Scenes from the `i`-th on without what is at some paths. -/
def Scene.allApartFrom [Scalar α] (paths : List String) (i : Nat) (scenes : List (Scene α)) :
    List (Scene α) :=
  (scenes.zipIdx i).map fun (s, j) => s.apartFrom paths j

/-- A script without what is at some paths. -/
def Script.apartFrom [Scalar α] (paths : List String) (s : Script α) : Script α :=
  { s with scenes := Scene.allApartFrom paths 0 s.scenes }

section Rest

variable {paths : List String}

theorem Camera.apartFrom_repaired [Scalar α] {path : String} {c : Camera α}
    (h : ∀ f ∈ (c.repaired path).2, f.path ∈ paths) :
    (c.repaired path).1.apartFrom paths path = c.apartFrom paths path := by
  cases c with
  | preset name =>
      by_cases hname : (Preset.ofName? name).isNone = true
      · simp only [repaired, if_pos hname] at h ⊢
        have hpath : path ∈ paths := h _ List.mem_cons_self
        simp only [apartFrom, if_pos hpath]
      · simp only [repaired, if_neg hname]
  | full shot =>
      by_cases hbounds : shot.position.phi < 0 ∨ zenith < shot.position.phi
      · simp only [repaired, if_pos hbounds] at h ⊢
        have hpath : path ++ ".spherical.phi" ∈ paths := h _ List.mem_cons_self
        simp only [apartFrom, if_pos hpath]
      · simp only [repaired, if_neg hbounds]
  | unread raw => rfl

theorem Mending.apartFrom_step {m : Mending α} {place : Place} {s : Step α}
    (h : ∀ f ∈ (m.step place s).1.fixes, f.path ∈ paths) :
    (m.step place s).2.apartFrom paths place = s.apartFrom paths place := by
  cases hcreated : s.createdId? with
  | none => rw [(m.step_of_createdId?_eq_none place hcreated).1]
  | some id =>
      obtain ⟨color, shape, rfl⟩ := Step.eq_create_of_createdId? hcreated
      obtain ⟨name, hs, -, -, -, ⟨rfl, -⟩ | ⟨-, -, kind, before, hfixes⟩⟩ :=
        m.step_create place id color shape
      · rw [hs]
      · rw [hfixes] at h
        have hpath : place.field "id" ∈ paths :=
          h _ (List.mem_append_right _ List.mem_cons_self)
        rw [hs, Step.apartFrom, Step.apartFrom, if_pos hpath, if_pos hpath]

theorem Mending.apartFrom_handOn {m : Mending α} {steps : List (Place × Step α)}
    (h : ∀ f ∈ (Action.handOn step m steps).1.fixes, f.path ∈ paths) :
    Action.handOn (fun _ place s => ((), s.apartFrom paths place)) ()
        (Action.handOn step m steps).2 =
      Action.handOn (fun _ place s => ((), s.apartFrom paths place)) () steps := by
  induction steps generalizing m with
  | nil => rfl
  | cons e rest ih =>
      have hrest := ih h
      have hfirst : (m.step e.1 e.2).2.apartFrom paths e.1 = e.2.apartFrom paths e.1 :=
        apartFrom_step fun f hf => h f (fixes_subset_handOn _ rest hf)
      simp only [Action.handOn, hfirst, hrest]

/-- A mending of some actions changes nothing but what is at the paths of its fixes. -/
theorem Mending.apartFrom_traverseFrom {m : Mending α} {place : Place}
    {actions : List (Action α)}
    (h : ∀ f ∈ (Action.traverseFrom step place 0 m actions).1.fixes, f.path ∈ paths) :
    Action.apartFrom paths place (Action.traverseFrom step place 0 m actions).2 =
      Action.apartFrom paths place actions := by
  obtain ⟨hmending, hmended⟩ := Action.locatedFrom_traverseFrom step place 0 m actions
  rw [hmending] at h
  -- the actions are grouped as before, and their steps are the same apart from the paths
  refine Action.eq_of_outlines place 0 ?_ ?_
  · rw [Action.apartFrom, Action.apartFrom, Action.outlines_traverseFrom,
      Action.outlines_traverseFrom, Action.outlines_traverseFrom]
  · have hapart : ∀ actions : List (Action α),
        Action.locatedFrom place 0 (Action.apartFrom paths place actions) =
          (Action.handOn (fun _ place s => ((), s.apartFrom paths place)) ()
            (Action.locatedFrom place 0 actions)).2 :=
      fun actions => (Action.locatedFrom_traverseFrom _ place 0 () actions).2
    rw [hapart, hapart, hmended, apartFrom_handOn h]

namespace Script

theorem apartFrom_repairCameras [Scalar α] {i : Nat} {scenes : List (Scene α)}
    (h : ∀ f ∈ (repairCameras i scenes).2, f.path ∈ paths) :
    Scene.allApartFrom paths i (repairCameras i scenes).1 =
      Scene.allApartFrom paths i scenes := by
  induction scenes generalizing i with
  | nil => rfl
  | cons s rest ih =>
      obtain ⟨hfirst, hrest⟩ := List.forall_mem_append.mp h
      have hcamera := Camera.apartFrom_repaired hfirst
      have hscenes := ih hrest
      simp only [Scene.allApartFrom, repairCameras, List.zipIdx_cons, List.map_cons] at hscenes ⊢
      rw [hscenes]
      simp only [Scene.apartFrom, hcamera]

theorem apartFrom_repairSceneIds [Scalar α] {taken : List String} {i : Nat}
    {scenes : List (Scene α)} (h : ∀ f ∈ (repairSceneIds taken i scenes).2, f.path ∈ paths) :
    Scene.allApartFrom paths i (repairSceneIds taken i scenes).1 =
      Scene.allApartFrom paths i scenes := by
  induction scenes generalizing taken i with
  | nil => rfl
  | cons s rest ih =>
      by_cases htaken : taken.contains s.id = true
      · simp only [repairSceneIds, if_pos htaken] at h ⊢
        obtain ⟨hpath, hrest⟩ := List.forall_mem_cons.mp h
        have hscenes := ih hrest
        simp only [Scene.allApartFrom, List.zipIdx_cons, List.map_cons] at hscenes ⊢
        rw [hscenes]
        simp only [Scene.apartFrom, if_pos hpath]
      · simp only [repairSceneIds, if_neg htaken] at h ⊢
        have hscenes := ih h
        simp only [Scene.allApartFrom, List.zipIdx_cons, List.map_cons] at hscenes ⊢
        rw [hscenes]

theorem apartFrom_repairActions [Scalar α] {m : Mending α} {i : Nat} {scenes : List (Scene α)}
    (h : ∀ f ∈ (repairActions m i scenes).2.fixes, f.path ∈ paths) :
    Scene.allApartFrom paths i (repairActions m i scenes).1 =
      Scene.allApartFrom paths i scenes := by
  induction scenes generalizing m i with
  | nil => rfl
  | cons s rest ih =>
      have hscenes := ih h
      have hactions : Action.apartFrom paths (Place.ofScene i)
          (Action.traverseFrom Mending.step (Place.ofScene i) 0 m s.actions).2 =
            Action.apartFrom paths (Place.ofScene i) s.actions := by
        refine Mending.apartFrom_traverseFrom fun f hf => h f ?_
        rw [repairActions, (located_repairActions _ _ _).1]
        exact Mending.fixes_subset_handOn _ _ hf
      simp only [Scene.allApartFrom, repairActions, List.zipIdx_cons, List.map_cons] at hscenes ⊢
      rw [hscenes]
      simp only [Scene.apartFrom, hactions]

/-- A script is mended at the paths of the fixes and nowhere else. -/
theorem apartFrom_mended [Scalar α] {s : Script α} (h : ∀ f ∈ s.mended.2, f.path ∈ paths) :
    s.mended.1.apartFrom paths = s.apartFrom paths := by
  obtain ⟨hbefore, hactions⟩ := List.forall_mem_append.mp h
  obtain ⟨hcameras, hids⟩ := List.forall_mem_append.mp hbefore
  refine congrArg (Script.mk s.title) ?_
  calc
    _ = Scene.allApartFrom paths 0 (repairSceneIds [] 0 (repairCameras 0 s.scenes).1).1 :=
      apartFrom_repairActions hactions
    _ = Scene.allApartFrom paths 0 (repairCameras 0 s.scenes).1 := apartFrom_repairSceneIds hids
    _ = Scene.allApartFrom paths 0 s.scenes := apartFrom_repairCameras hcameras

end Script

end Rest

namespace Script

/--
The log of a repair is exact.  Apart from what is at the paths of the fixes the repaired
script is the script.  No two fixes are at the same path, and each is at the path of a
datum: there the script holds what the fix was made of, the repaired script holds what
the fix made of it, and these are not the same.
-/
theorem fixes_repair_exact [Scalar α] [FiniteOrder α] {s s' : Script α}
    {defects : List (Finding Defect)} (h : (s.repair defects).script = some s') :
    s'.apartFrom ((s.repair defects).fixes.map Fix.path) =
        s.apartFrom ((s.repair defects).fixes.map Fix.path) ∧
    ((s.repair defects).fixes.map Fix.path).Nodup ∧
    ∀ f ∈ (s.repair defects).fixes,
      (∀ d, (f.path, d) ∈ s.data ↔ d = f.before) ∧
      (∀ d, (f.path, d) ∈ s'.data ↔ d = f.after) ∧ f.before ≠ f.after := by
  rw [fixes_repair h]
  obtain ⟨rfl, -, -⟩ := repair_eq_some h
  have hlogs := s.logs_mended
  refine ⟨apartFrom_mended fun f hf => List.mem_map.mpr ⟨f, hf, rfl⟩,
    s.nodup_data.sublist hlogs.sublist, fun f hf => ?_⟩
  obtain ⟨hbefore, hafter, hne⟩ := hlogs.mem hf
  exact ⟨mem_data_iff hbefore, mem_data_iff hafter, hne⟩

theorem fixes_repair_exact_tangled :
    ∃ s', (tangledScript.repair
        (tangledScript.review Standards.usual plainCube).defects).script = some s' ∧
      (tangledScript.repair
        (tangledScript.review Standards.usual plainCube).defects).fixes.length = 6 ∧
      s'.apartFrom ((tangledScript.repair
          (tangledScript.review Standards.usual plainCube).defects).fixes.map Fix.path) =
        tangledScript.apartFrom ((tangledScript.repair
          (tangledScript.review Standards.usual plainCube).defects).fixes.map Fix.path) := by
  have hscript : (tangledScript.repair
      (tangledScript.review Standards.usual plainCube).defects).script.isSome = true := by
    decide +kernel
  have hlength : (tangledScript.repair
      (tangledScript.review Standards.usual plainCube).defects).fixes.length = 6 := by
    decide +kernel
  obtain ⟨s', hs'⟩ := Option.isSome_iff_exists.mp hscript
  exact ⟨s', hs', hlength, (fixes_repair_exact hs').1⟩

end Script

end Storyboard
