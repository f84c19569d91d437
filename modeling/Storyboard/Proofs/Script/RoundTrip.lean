import Storyboard.Proofs.Review.Creators
import Storyboard.Proofs.Script.Storable

/-!
# Scripts that are read back

A script that has been read is written so that reading it again gives the same script,
and so is what a repair makes of it.  What could not be read stands in what is written
where it stood in what was read, unchanged.
-/

namespace Storyboard

open Json

/-! ## Places in a JSON value -/

namespace Json

/-- The members of a group of actions. -/
def members? (j : Json) : Option (List Json) := (j.field? "actions").bind items?

/-- The action that some indices lead to from an action. -/
def memberAt? : List Nat → Json → Option Json
  | [], j => some j
  | k :: rest, j => (j.members?.bind fun items => items[k]?).bind (memberAt? rest)

/-- The action that some indices lead to from a list of actions. -/
def itemAt? (items : List Json) : List Nat → Option Json
  | [] => none
  | k :: rest => items[k]?.bind (memberAt? rest)

/-- The fields of the scene at an index of a script. -/
def sceneAt? (j : Json) (i : Nat) : Option Record := do
  let script ← j.record? ["title", "scenes"]
  let scenes ← (script.lookup "scenes").bind items?
  let scene ← scenes[i]?
  scene.record? ["id", "narration", "camera", "actions", "showMeasurements"]

/-- The camera of the scene at an index of a script. -/
def cameraAt? (j : Json) (i : Nat) : Option Json := (j.sceneAt? i).bind fun r => r.lookup "camera"

/-- The action that some indices lead to in the scene at an index of a script. -/
def actionAt? (j : Json) (i : Nat) (indices : List Nat) : Option Json :=
  ((j.sceneAt? i).bind fun r => (r.lookup "actions").bind items?).bind fun items =>
    itemAt? items indices

theorem memberAt?_cons (k : Nat) (rest : List Nat) (j : Json) :
    memberAt? (k :: rest) j = j.members?.bind fun items => itemAt? items (k :: rest) := by
  rw [memberAt?, Option.bind_assoc]
  rfl

theorem members?_cons (name : String) (value : Json) (rest : List (String × Json)) :
    (Json.obj ((name, value) :: rest)).members? =
      if name = "actions" then value.items? else (Json.obj rest).members? := by
  change (List.lookup "actions" ((name, value) :: rest)).bind items? = _
  rw [List.lookup_cons]
  split_ifs with hname
  · rw [hname]
    rfl
  · rw [beq_eq_false_iff_ne.mpr (Ne.symm hname)]
    rfl

end Json

namespace Action

/-! ## Where a step has been read from -/

theorem members_cons (name : String) (value : Json) (rest : List (String × Json)) :
    members ((name, value) :: rest) =
      if name = "actions" then value.items?.map ofItems else members rest := by
  cases value <;> simp [members, items?]

theorem exists_memberAt?_of_step {place : Place} {j : Json} {s : Step Float}
    (hread : ofJson j = .step s) {e : Place × Step Float} (h : e ∈ located place (ofJson j)) :
    ∃ rest raw, e.1.indices = place.indices ++ rest ∧ memberAt? rest j = some raw ∧
      ofJson raw = .step e.2 := by
  rw [hread, located] at h
  obtain rfl := List.mem_singleton.mp h
  exact ⟨[], j, (List.append_nil _).symm, rfl, hread⟩

mutual

/-- Every step has been read from where its place leads to. -/
theorem exists_memberAt?_of_mem_located {place : Place} {j : Json} {e : Place × Step Float}
    (h : e ∈ located place (ofJson j)) :
    ∃ rest raw, e.1.indices = place.indices ++ rest ∧ memberAt? rest j = some raw ∧
      ofJson raw = .step e.2 := by
  cases j with
  | obj fields =>
      rcases ofObject_cases fields (members fields) with
        ⟨reason, heq⟩ | ⟨s, verb, heq, -, -⟩ | ⟨actions, hmembers, heq⟩
      · rw [← ofJson] at heq
        exact exists_memberAt?_of_step heq h
      · rw [← ofJson] at heq
        exact exists_memberAt?_of_step heq h
      · rw [ofJson, heq, located] at h
        obtain ⟨k, rest, raw, hindices, hraw, hread⟩ := exists_memberAt?_of_members hmembers h
        exact ⟨k :: rest, raw, hindices, hraw, hread⟩
  | null => exact exists_memberAt?_of_step rfl h
  | bool b => exact exists_memberAt?_of_step rfl h
  | int n => exact exists_memberAt?_of_step rfl h
  | float x => exact exists_memberAt?_of_step rfl h
  | str text => exact exists_memberAt?_of_step rfl h
  | arr items => exact exists_memberAt?_of_step rfl h

theorem exists_memberAt?_of_members {place : Place} {fields : List (String × Json)}
    {actions : List (Action Float)} (hmembers : members fields = some actions)
    {e : Place × Step Float} (h : e ∈ locatedFrom place 0 actions) :
    ∃ k rest raw, e.1.indices = place.indices ++ k :: rest ∧
      memberAt? (k :: rest) (.obj fields) = some raw ∧ ofJson raw = .step e.2 := by
  cases fields with
  | nil =>
      rw [members] at hmembers
      cases hmembers
  | cons f others =>
      obtain ⟨name, value⟩ := f
      rw [members_cons] at hmembers
      split_ifs at hmembers with hname
      · cases value with
        | arr items =>
            obtain rfl := Option.some_inj.mp hmembers
            obtain ⟨k, rest, raw, hindices, hraw, hread⟩ := exists_itemAt?_of_mem_locatedFrom h
            refine ⟨k, rest, raw, ?_, ?_, hread⟩
            · rw [hindices, Nat.zero_add]
            · rw [memberAt?_cons, members?_cons, if_pos hname]
              exact hraw
        | null | bool | int | float | str | obj => cases hmembers
      · obtain ⟨k, rest, raw, hindices, hraw, hread⟩ := exists_memberAt?_of_members hmembers h
        refine ⟨k, rest, raw, hindices, ?_, hread⟩
        rw [memberAt?_cons, members?_cons, if_neg hname, ← memberAt?_cons]
        exact hraw

theorem exists_itemAt?_of_mem_locatedFrom {place : Place} {i : Nat} {items : List Json}
    {e : Place × Step Float} (h : e ∈ locatedFrom place i (ofItems items)) :
    ∃ k rest raw, e.1.indices = place.indices ++ (i + k) :: rest ∧
      itemAt? items (k :: rest) = some raw ∧ ofJson raw = .step e.2 := by
  cases items with
  | nil =>
      rw [ofItems, locatedFrom] at h
      exact absurd h List.not_mem_nil
  | cons j others =>
      rw [ofItems, locatedFrom] at h
      rcases List.mem_append.mp h with h | h
      · obtain ⟨rest, raw, hindices, hraw, hread⟩ := exists_memberAt?_of_mem_located h
        refine ⟨0, rest, raw, ?_, hraw, hread⟩
        rw [hindices]
        exact List.append_assoc _ _ _
      · obtain ⟨k, rest, raw, hindices, hraw, hread⟩ := exists_itemAt?_of_mem_locatedFrom h
        refine ⟨k + 1, rest, raw, ?_, hraw, hread⟩
        rw [hindices, Nat.add_right_comm, Nat.add_assoc]

end

/-! ## Where a step is written to -/

mutual

/-- Every step is written to where its place leads to. -/
theorem exists_memberAt?_toJson {place : Place} {a : Action Float} {e : Place × Step Float}
    (h : e ∈ located place a) :
    ∃ rest, e.1.indices = place.indices ++ rest ∧ memberAt? rest a.toJson = some e.2.toJson := by
  cases a with
  | step s =>
      rw [located] at h
      obtain rfl := List.mem_singleton.mp h
      refine ⟨[], (List.append_nil _).symm, ?_⟩
      rw [toJson]
      rfl
  | together actions =>
      rw [located] at h
      obtain ⟨k, rest, hindices, hwritten⟩ := exists_itemAt?_toItems h
      refine ⟨k :: rest, ?_, ?_⟩
      · rw [hindices, Nat.zero_add]
      · rw [memberAt?_cons, toJson]
        exact hwritten

theorem exists_itemAt?_toItems {place : Place} {i : Nat} {actions : List (Action Float)}
    {e : Place × Step Float} (h : e ∈ locatedFrom place i actions) :
    ∃ k rest, e.1.indices = place.indices ++ (i + k) :: rest ∧
      itemAt? (toItems actions) (k :: rest) = some e.2.toJson := by
  cases actions with
  | nil =>
      rw [locatedFrom] at h
      exact absurd h List.not_mem_nil
  | cons a others =>
      rw [locatedFrom] at h
      rw [toItems]
      rcases List.mem_append.mp h with h | h
      · obtain ⟨rest, hindices, hwritten⟩ := exists_memberAt?_toJson h
        refine ⟨0, rest, ?_, hwritten⟩
        rw [hindices]
        exact List.append_assoc _ _ _
      · obtain ⟨k, rest, hindices, hwritten⟩ := exists_itemAt?_toItems h
        refine ⟨k + 1, rest, ?_, hwritten⟩
        rw [hindices, Nat.add_right_comm, Nat.add_assoc]

end

/-! ## Actions are read back -/

mutual

theorem ofJson_toJson (place : Place) {a : Action Float}
    (h : ∀ e ∈ located place a, e.2.IsStorable) : ofJson a.toJson = a := by
  cases a with
  | step s =>
      rw [toJson]
      apply Step.ofJson_toJson
      apply h (place, s)
      rw [located]
      exact List.mem_singleton_self _
  | together actions =>
      have hactions : ofItems (toItems actions) = actions := by
        apply ofItems_toItems place 0
        rw [located] at h
        exact h
      have hmembers : members [("do", .str Verb.together.word),
          ("actions", .arr (toItems actions))] = some actions := by
        rw [members_cons, if_neg (by decide), members_cons, if_pos rfl]
        exact congrArg some hactions
      rw [toJson, ofJson, hmembers]
      rfl

/-- Actions whose steps can be stored are read back. -/
theorem ofItems_toItems (place : Place) (i : Nat) {actions : List (Action Float)}
    (h : ∀ e ∈ locatedFrom place i actions, e.2.IsStorable) :
    ofItems (toItems actions) = actions := by
  cases actions with
  | nil =>
      rw [toItems, ofItems]
  | cons a rest =>
      rw [locatedFrom] at h
      obtain ⟨ha, hrest⟩ := List.forall_mem_append.mp h
      rw [toItems, ofItems, ofJson_toJson (place.child i) ha, ofItems_toItems place (i + 1) hrest]

end

end Action

/-! ## Scenes -/

/-- A scene that is read back when it has been written as the one at an index. -/
structure Scene.IsStorable (i : Nat) (scene : Scene Float) : Prop where
  steps : ∀ e ∈ scene.located i, e.2.IsStorable
  camera : scene.camera.IsStorable

namespace Scene

variable {i : Nat} {scene : Scene Float}

/-- A scene that can be stored is read back. -/
theorem ofJson?_toJson (h : scene.IsStorable i) : Scene.ofJson? scene.toJson = some scene := by
  have hactions : Action.list? (.arr (Action.toItems scene.actions)) = some scene.actions :=
    congrArg some (Action.ofItems_toItems _ 0 h.steps)
  have hcamera := Camera.ofJson_toJson h.camera
  obtain ⟨id, narration, camera, actions, measurements⟩ := scene
  have hread : ∀ measurements' : Option (List String),
      ((Action.list? (.arr (Action.toItems actions))).bind fun actions' =>
        some (⟨id, narration, Camera.ofJson camera.toJson, actions', measurements'⟩ :
          Scene Float)) = some ⟨id, narration, camera, actions, measurements'⟩ := by
    intro measurements'
    rw [hactions, hcamera]
    rfl
  cases measurements with
  | none => exact hread none
  | some ids =>
      change ((Action.list? (.arr (Action.toItems actions))).bind fun actions' =>
        (((ofTexts ids).texts?).map some).bind fun measurements' =>
          some (⟨id, narration, Camera.ofJson camera.toJson, actions', measurements'⟩ :
            Scene Float)) = _
      rw [texts?_ofTexts]
      exact hread (some ids)

/-- A scene whose camera and actions have been read from some fields. -/
structure ReadFrom (r : Record) (scene : Scene Float) : Prop where
  camera : (r.lookup "camera" = none ∧ scene.camera = Camera.standard) ∨
    ∃ j, r.lookup "camera" = some j ∧ scene.camera = Camera.ofJson j
  actions : scene.actions = [] ∨
    ∃ items, (r.lookup "actions").bind items? = some items ∧
      scene.actions = Action.ofItems items

theorem exists_readFrom {j : Json} (h : Scene.ofJson? j = some scene) :
    ∃ r, j.record? ["id", "narration", "camera", "actions", "showMeasurements"] = some r ∧
      scene.ReadFrom r := by
  simp only [Scene.ofJson?, Option.bind_eq_bind, Option.bind_eq_some_iff] at h
  obtain ⟨r, hr, id, -, narration, -, camera, hcamera, actions, hactions, measurements, -, h⟩ := h
  cases h
  refine ⟨r, hr, ?_, ?_⟩
  · unfold Record.defaulted at hcamera
    split at hcamera
    next hlookup => exact Or.inl ⟨hlookup, (Option.some_inj.mp hcamera).symm⟩
    next value hlookup => exact Or.inr ⟨value, hlookup, (Option.some_inj.mp hcamera).symm⟩
  · unfold Record.defaulted at hactions
    split at hactions
    next => exact Or.inl (Option.some_inj.mp hactions).symm
    next value hlookup =>
      obtain ⟨items, hitems, rfl⟩ := Option.map_eq_some_iff.mp hactions
      refine Or.inr ⟨items, ?_, rfl⟩
      rw [hlookup]
      exact hitems

namespace ReadFrom

variable {r : Record}

theorem exists_itemAt? (h : scene.ReadFrom r) {e : Place × Step Float} (he : e ∈ scene.located i) :
    ∃ items raw, (r.lookup "actions").bind items? = some items ∧
      itemAt? items e.1.indices = some raw ∧ Action.ofJson raw = .step e.2 := by
  rw [located] at he
  rcases h.actions with hnil | ⟨items, hitems, hactions⟩
  · rw [hnil, Action.locatedFrom] at he
    exact absurd he List.not_mem_nil
  · rw [hactions] at he
    obtain ⟨k, rest, raw, hindices, hraw, hread⟩ :=
      Action.exists_itemAt?_of_mem_locatedFrom he
    refine ⟨items, raw, hitems, ?_, hread⟩
    have htop : e.1.indices = k :: rest := by
      rw [hindices, Nat.zero_add]
      rfl
    rw [htop]
    exact hraw

theorem isStorable (h : scene.ReadFrom r) (i : Nat) : scene.IsStorable i where
  steps e he := by
    obtain ⟨items, raw, -, -, hread⟩ := h.exists_itemAt? he
    exact Action.isStorable_of_ofJson hread
  camera := by
    rcases h.camera with ⟨-, hcamera⟩ | ⟨j, -, hcamera⟩
    · rw [hcamera]
      exact Camera.isStorable_ofJson (.str Preset.standard.name)
    · rw [hcamera]
      exact Camera.isStorable_ofJson j

end ReadFrom

end Scene

/-! ## Scripts -/

namespace Script

variable {j : Json} {s : Script Float} {i : Nat} {scene : Scene Float}

theorem exists_sceneAt? (h : Script.ofJson? j = some s) (hscene : s.scenes[i]? = some scene) :
    ∃ r, j.sceneAt? i = some r ∧ scene.ReadFrom r := by
  simp only [Script.ofJson?, Option.bind_eq_bind, Option.bind_eq_some_iff, Record.required] at h
  obtain ⟨script, hscript, title, -, scenes, ⟨value, hvalue, hscenes⟩, h⟩ := h
  cases h
  obtain ⟨items, hitems, hmapped⟩ := Option.bind_eq_some_iff.mp hscenes
  obtain ⟨item, hitem, hread⟩ := exists_getElem?_of_mapM_eq_some hmapped hscene
  obtain ⟨r, hr, hfrom⟩ := Scene.exists_readFrom hread
  refine ⟨r, ?_, hfrom⟩
  simp only [sceneAt?, Option.bind_eq_bind, hscript, hvalue, Option.bind_some, hitems, hitem, hr]

theorem isStorable_of_ofJson? (h : Script.ofJson? j = some s)
    (hscene : s.scenes[i]? = some scene) : scene.IsStorable i := by
  obtain ⟨r, -, hfrom⟩ := exists_sceneAt? h hscene
  exact hfrom.isStorable i

/-- A script whose scenes can be stored is read back. -/
theorem ofJson?_toJson
    (h : ∀ (i : Nat) (scene : Scene Float), s.scenes[i]? = some scene → scene.IsStorable i) :
    Script.ofJson? s.toJson = some s := by
  have hscenes : (Json.arr (s.scenes.map Scene.toJson)).list? Scene.ofJson? = some s.scenes := by
    apply list?_map
    intro scene hmem
    obtain ⟨i, hi, rfl⟩ := List.getElem_of_mem hmem
    exact Scene.ofJson?_toJson (h i _ (List.getElem?_eq_getElem hi))
  change (((Json.arr (s.scenes.map Scene.toJson)).list? Scene.ofJson?).bind fun scenes =>
    some (⟨s.title, scenes⟩ : Script Float)) = some s
  rw [hscenes]
  rfl

/-- The camera and the actions of a scene are written to the scene at the same index. -/
theorem written_toJson (hscene : s.scenes[i]? = some scene) :
    s.toJson.cameraAt? i = some scene.camera.toJson ∧
      ∀ e ∈ scene.located i, s.toJson.actionAt? i e.1.indices = some e.2.toJson := by
  obtain ⟨r, hr, hcamera, hactions⟩ : ∃ r, scene.toJson = .obj r ∧
      r.lookup "camera" = some scene.camera.toJson ∧
      r.lookup "actions" = some (.arr (Action.toItems scene.actions)) := ⟨_, rfl, rfl, rfl⟩
  have hfields : s.toJson.sceneAt? i = some r := by
    change (s.scenes.map Scene.toJson)[i]?.bind (record? _) = some r
    rw [List.getElem?_map, hscene, Option.map_some, hr]
    rfl
  constructor
  · rw [cameraAt?, hfields]
    exact hcamera
  · intro e he
    obtain ⟨k, rest, hindices, hwritten⟩ := Action.exists_itemAt?_toItems he
    have htop : e.1.indices = k :: rest := by
      rw [hindices, Nat.zero_add]
      rfl
    rw [actionAt?, hfields, Option.bind_some, hactions, htop]
    exact hwritten

end Script

/-! ## Mended scripts -/

theorem Mending.isStorable_step (m : Mending Float) (place : Place) {s : Step Float}
    (h : s.IsStorable) : (m.step place s).2.IsStorable := by
  cases hcreated : s.createdId? with
  | none =>
      rw [(m.step_of_createdId?_eq_none place hcreated).1]
      exact h
  | some id =>
      obtain ⟨color, shape, rfl⟩ := Step.eq_create_of_createdId? hcreated
      obtain ⟨name, hname, -⟩ := m.step_create place id color shape
      rw [hname]
      exact ⟨h.isFinite, fun u hu => by cases hu⟩

theorem Mending.isStorable_handOn (m : Mending Float) {steps : List (Place × Step Float)}
    (h : ∀ e ∈ steps, e.2.IsStorable) :
    ∀ e ∈ (Action.handOn Mending.step m steps).2, e.2.IsStorable := by
  induction steps generalizing m with
  | nil => exact h
  | cons e rest ih =>
      obtain ⟨he, hrest⟩ := List.forall_mem_cons.mp h
      exact List.forall_mem_cons.mpr ⟨m.isStorable_step e.1 he, ih _ hrest⟩

theorem Mending.mem_handOn_of_unread (m : Mending Float) {steps : List (Place × Step Float)}
    {place : Place} {u : Unread} (h : (place, .unread u) ∈ steps) :
    (place, .unread u) ∈ (Action.handOn Mending.step m steps).2 := by
  induction steps generalizing m with
  | nil => exact absurd h List.not_mem_nil
  | cons e rest ih =>
      rcases List.mem_cons.mp h with rfl | h
      · refine List.mem_cons.mpr (Or.inl ?_)
        rw [(m.step_of_createdId?_eq_none place rfl).1]
      · exact List.mem_cons_of_mem _ (ih _ h)

theorem Camera.isStorable_repaired (path : String) {c : Camera Float} (h : c.IsStorable) :
    (c.repaired path).1.IsStorable := by
  cases c with
  | preset name =>
      unfold repaired
      dsimp only
      split
      · exact ⟨fun x hx => absurd hx List.not_mem_nil, fun raw hraw => by cases hraw⟩
      · exact h
  | unread raw => exact h
  | full shot =>
      unfold repaired
      dsimp only
      split
      · refine ⟨?_, fun raw hraw => by cases hraw⟩
        have hclamp : Scalar.isFinite (Scalar.clamp 0 zenith shot.position.phi) = true := by
          unfold Scalar.clamp
          split_ifs
          · decide +kernel
          · decide +kernel
          · exact h.isFinite shot.position.phi (by simp [numbers])
        intro x hx
        simp only [numbers, List.mem_cons, List.not_mem_nil, or_false] at hx
        rcases hx with rfl | rfl | rfl
        · exact h.isFinite shot.position.radius (by simp [numbers])
        · exact h.isFinite shot.position.theta (by simp [numbers])
        · exact hclamp
      · exact h

theorem Scene.isStorable_mend (names : List String) (m : Mending Float) {i : Nat}
    {scene : Scene Float} (h : scene.IsStorable i) :
    (scene.mend names m i).2.IsStorable i where
  steps := by
    rw [(scene.located_mend names m i).2]
    exact m.isStorable_handOn h.steps
  camera := Camera.isStorable_repaired _ h.camera

/-- Every scene of a mended script is the mended scene at the same index. -/
theorem exists_getElem?_mendScenes (names : List String) (m : Mending Float) (i : Nat)
    (scenes : List (Scene Float)) (k : Nat) :
    ∃ names' m', (mendScenes names m i scenes)[k]? =
      scenes[k]?.map fun scene => (scene.mend names' m' (i + k)).2 := by
  induction scenes generalizing names m i k with
  | nil => exact ⟨names, m, rfl⟩
  | cons scene rest ih =>
      cases k with
      | zero => exact ⟨names, m, rfl⟩
      | succ k =>
          rw [mendScenes, Nat.add_comm k 1, ← Nat.add_assoc, Nat.add_comm 1 k]
          exact ih _ _ (i + 1) k

/-! ## What could not be read -/

namespace Script

/-- What could not be read stands in a value where it stood in the value it was read from. -/
def KeepsUnread (s : Script Float) (j out : Json) : Prop :=
  ∀ (i : Nat) (scene : Scene Float), s.scenes[i]? = some scene →
    (∀ place u, (place, .unread u) ∈ scene.located i →
      j.actionAt? i place.indices = some u.raw ∧ out.actionAt? i place.indices = some u.raw) ∧
    ∀ raw, scene.camera = .unread raw →
      j.cameraAt? i = some raw ∧ out.cameraAt? i = some raw

variable {j : Json} {s : Script Float} {i : Nat} {scene : Scene Float}

theorem actionAt?_of_unread (h : Script.ofJson? j = some s) (hscene : s.scenes[i]? = some scene)
    {place : Place} {u : Unread} (hu : (place, .unread u) ∈ scene.located i) :
    j.actionAt? i place.indices = some u.raw := by
  obtain ⟨r, hr, hfrom⟩ := exists_sceneAt? h hscene
  obtain ⟨items, raw, hitems, hraw, hread⟩ := hfrom.exists_itemAt? hu
  rw [actionAt?, hr, Option.bind_some, hitems, Option.bind_some, hraw,
    Action.raw_eq_of_ofJson hread]

theorem cameraAt?_of_unread (h : Script.ofJson? j = some s) (hscene : s.scenes[i]? = some scene)
    {raw : Json} (hraw : scene.camera = .unread raw) : j.cameraAt? i = some raw := by
  obtain ⟨r, hr, hfrom⟩ := exists_sceneAt? h hscene
  rcases hfrom.camera with ⟨-, hcamera⟩ | ⟨value, hvalue, hcamera⟩
  · rw [hraw] at hcamera
    cases hcamera
  · have hread : Camera.ofJson value = .unread raw := hcamera.symm.trans hraw
    rw [cameraAt?, hr, Option.bind_some, hvalue, Camera.raw_eq_of_ofJson hread]

/--
A script that has been read from JSON is written so that it is read again as it is, and
so is every script that a repair makes of it, whatever defects the repair is given.
What could not be read, of actions and of cameras, is written back both times to the
place where it was read, as the same value.
-/
theorem toJson_reads_back (h : Script.ofJson? j = some s) :
    (Script.ofJson? s.toJson = some s ∧ s.KeepsUnread j s.toJson) ∧
    ∀ defects s', (s.repair defects).script = some s' →
      Script.ofJson? s'.toJson = some s' ∧ s.KeepsUnread j s'.toJson := by
  have hstorable : ∀ (i : Nat) (scene : Scene Float), s.scenes[i]? = some scene →
      scene.IsStorable i := fun i scene hscene => isStorable_of_ofJson? h hscene
  constructor
  · refine ⟨ofJson?_toJson hstorable, fun i scene hscene => ⟨?_, ?_⟩⟩
    · intro place u hu
      exact ⟨actionAt?_of_unread h hscene hu, (written_toJson hscene).2 _ hu⟩
    · intro raw hraw
      refine ⟨cameraAt?_of_unread h hscene hraw, ?_⟩
      rw [(written_toJson hscene).1, hraw]
      rfl
  · intro defects s' hs'
    obtain ⟨rfl, -⟩ := repair_eq_some hs'
    constructor
    · apply ofJson?_toJson
      intro i scene' hscene'
      obtain ⟨names, m, hget⟩ := exists_getElem?_mendScenes [] ⟨[], []⟩ 0 s.scenes i
      rw [scenes_mended, hget, Option.map_eq_some_iff, Nat.zero_add] at hscene'
      obtain ⟨scene, hscene, rfl⟩ := hscene'
      exact Scene.isStorable_mend names m (hstorable i scene hscene)
    · intro i scene hscene
      obtain ⟨names, m, hget⟩ := exists_getElem?_mendScenes [] ⟨[], []⟩ 0 s.scenes i
      rw [hscene, Option.map_some, Nat.zero_add, ← scenes_mended] at hget
      obtain ⟨hcamera, hactions⟩ := written_toJson hget
      constructor
      · intro place u hu
        refine ⟨actionAt?_of_unread h hscene hu, hactions (place, .unread u) ?_⟩
        rw [(scene.located_mend names m i).2]
        exact m.mem_handOn_of_unread hu
      · intro raw hraw
        refine ⟨cameraAt?_of_unread h hscene hraw, ?_⟩
        rw [hcamera]
        change some (scene.camera.repaired _).1.toJson = some raw
        rw [hraw]
        rfl

/-- An action whose target is a number. -/
def malformedJson : Json := .obj [("do", .str "fadeIn"), ("target", .int 3)]

/-- A script of a line without a name and a group, with a camera that is a number. -/
def mixedJson : Json := .obj [("scenes", .arr [.obj [
  ("id", .str "mixed"),
  ("camera", .int 7),
  ("actions", .arr [
    .obj [("do", .str "drawLine"), ("from", .str "A"), ("to", .str "B")],
    .obj [("actions", .arr [.obj [("do", .str "wait"), ("duration", .int 1)], malformedJson]),
      ("do", .str "together")]])]])]

/-- The script that is read from it. -/
def mixedScript : Script Float where
  title := ""
  scenes := [{
    id := "mixed"
    narration := ""
    camera := .unread (.int 7)
    actions := [
      .step (.create none none (.line "A" "B" none)),
      .together [
        .step (.wait (Float.ofInt 1)),
        .step (.unread ⟨malformedJson,
          .malformed .fadeIn "invalid type: integer `3`, expected a string"⟩)]]
    measurements := none }]

theorem toJson_reads_back_mixed :
    Script.ofJson? mixedJson = some mixedScript ∧
      Script.ofJson? mixedScript.toJson = some mixedScript ∧
      ∃ s', (mixedScript.repair [⟨.missingId, "", ""⟩]).script = some s' ∧
        Script.ofJson? s'.toJson = some s' ∧ s'.toJson.cameraAt? 0 = some (.int 7) ∧
        s'.toJson.actionAt? 0 [1, 1] = some malformedJson := by
  have hread : Script.ofJson? mixedJson = some mixedScript := rfl
  have hrepaired : (mixedScript.repair [⟨.missingId, "", ""⟩]).script =
      some mixedScript.mended.1 := rfl
  obtain ⟨⟨hback, -⟩, hrepair⟩ := toJson_reads_back hread
  obtain ⟨hback', hkept⟩ := hrepair _ _ hrepaired
  obtain ⟨hactions, hcamera⟩ := hkept 0 _ rfl
  refine ⟨hread, hback, _, hrepaired, hback', (hcamera _ rfl).2, ?_⟩
  refine (hactions ⟨scenePath 0 ++ ".actions", [1, 1]⟩ ⟨malformedJson, .malformed .fadeIn
    "invalid type: integer `3`, expected a string"⟩ ?_).2
  exact List.mem_cons_of_mem _ (List.mem_cons_of_mem _ List.mem_cons_self)

end Script

end Storyboard
