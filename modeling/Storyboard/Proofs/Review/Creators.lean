import Storyboard.Proofs.Review.Naming

/-!
# Who creates what in a mended script

The steps of a mended script are those of the script, at the same places and with the
names that the mending left them.  The fixes at their names are told from all others
by their paths.  Hence an element has a new name exactly where a fix gives it one, and
in the end no two elements have the same name.
-/

namespace Storyboard

variable {α : Type}

/-! ## The steps and the fixes of a mended script -/

/-- What a camera that is given in full looks at. -/
def Camera.lookAt? (c : Camera α) : Option String :=
  match c with
  | .full shot => some shot.lookAt
  | .preset _ | .unread _ => none

/-- What a step acts on, if it is there already. -/
def Step.target? : Step α → Option String
  | .reveal target | .hide target | .fadeIn target _ | .fadeOut target _
  | .highlight target _ | .pulse target _ _ => some target
  | .create .. | .animatePoint .. | .fold .. | .wait _ | .unread _ => none

namespace Script

/-- The targets of a script, each with the place of the step that refers to it. -/
def targets (s : Script α) : List (Place × String) :=
  s.located.filterMap fun e => e.2.target?.map fun target => (e.1, target)

/-- What the cameras of a script look at, scene by scene. -/
def lookAts (s : Script α) : List (Option String) := s.scenes.map fun scene => scene.camera.lookAt?

theorem filterMap_target?_handOn (m : Mending α) (steps : List (Place × Step α)) :
    ((Action.handOn Mending.step m steps).2.filterMap fun e =>
        e.2.target?.map fun target => (e.1, target)) =
      steps.filterMap fun e => e.2.target?.map fun target => (e.1, target) := by
  induction steps generalizing m with
  | nil => rfl
  | cons e rest ih =>
      have hstep : (m.step e.1 e.2).2.target? = e.2.target? := by
        cases hcreated : e.2.createdId? with
        | none => rw [(m.step_of_createdId?_eq_none e.1 hcreated).1]
        | some id =>
            obtain ⟨color, shape, hcreate⟩ := Step.eq_create_of_createdId? hcreated
            obtain ⟨name, hname, -⟩ := m.step_create e.1 id color shape
            rw [hcreate, hname]
            rfl
      change List.filterMap _ ((e.1, (m.step e.1 e.2).2) :: _) = _
      rw [List.filterMap_cons, List.filterMap_cons, ih, hstep]

theorem lookAt?_repaired [Scalar α] (path : String) (c : Camera α) :
    (c.repaired path).1.lookAt? = c.lookAt? := by
  unfold Camera.repaired
  cases c with
  | preset name =>
      dsimp only
      split <;> rfl
  | full shot =>
      dsimp only
      split <;> rfl
  | unread raw => rfl

/-- The places at which an element of a name is created. -/
def creators (s : Script α) (name : String) : List Place :=
  (s.located.filter fun e => e.2.createdId? = some (some name)).map Prod.fst

/-- How many steps come before the step at a place. -/
def position (s : Script α) (place : Place) : Nat := (s.located.map Prod.fst).idxOf place

theorem mem_creators {s : Script α} {name : String} {place : Place} :
    place ∈ s.creators name ↔
      ∃ step, (place, step) ∈ s.located ∧ step.createdId? = some (some name) := by
  simp [creators]

theorem step_unique {s : Script α} {place : Place} {step step' : Step α}
    (h : (place, step) ∈ s.located) (h' : (place, step') ∈ s.located) : step = step' :=
  congrArg Prod.snd (List.inj_on_of_nodup_map s.nodup_located h h' rfl)

theorem position_of_getElem {s : Script α} {i : Nat} (h : i < s.located.length) :
    s.position s.located[i].1 = i := by
  have hi : i < (s.located.map Prod.fst).length := by simpa using h
  have hget : s.located[i].1 = (s.located.map Prod.fst)[i] := by simp
  rw [position, hget, s.nodup_located.idxOf_getElem i hi]

theorem position_lt_of_split {s : Script α} {place other : Place} {step : Step α}
    {front back : List (Place × Step α)} (hsplit : s.located = front ++ (place, step) :: back)
    (hother : other ∈ front.map Prod.fst) : s.position other < s.position place := by
  have hnodup := s.nodup_located
  rw [hsplit, List.map_append, List.map_cons, List.nodup_append] at hnodup
  have hplace : place ∉ front.map Prod.fst :=
    fun hmem => hnodup.2.2 place hmem place List.mem_cons_self rfl
  rw [position, position, hsplit, List.map_append, List.map_cons,
    List.idxOf_append_of_mem hother, List.idxOf_append_of_notMem hplace, List.idxOf_cons_self]
  exact List.idxOf_lt_length_iff.mpr hother

/-- The steps of scenes from the `i`-th on, each with its place. -/
def locatedFrom (i : Nat) (scenes : List (Scene α)) : List (Place × Step α) :=
  (scenes.zipIdx i).flatMap fun (scene, j) => scene.located j

theorem locatedFrom_congr (i : Nat) {scenes scenes' : List (Scene α)}
    (h : scenes.map Scene.actions = scenes'.map Scene.actions) :
    locatedFrom i scenes = locatedFrom i scenes' := by
  have hactions : ∀ scenes : List (Scene α), locatedFrom i scenes =
      ((scenes.map Scene.actions).zipIdx i).flatMap fun (actions, j) =>
        Action.locatedFrom (Place.ofScene j) 0 actions := by
    intro scenes
    rw [List.zipIdx_map, List.flatMap_map]
    rfl
  rw [hactions, hactions, h]

theorem located_repairActions (m : Mending α) (i : Nat) (scenes : List (Scene α)) :
    (repairActions m i scenes).2 = (Action.handOn Mending.step m (locatedFrom i scenes)).1 ∧
    locatedFrom i (repairActions m i scenes).1 =
      (Action.handOn Mending.step m (locatedFrom i scenes)).2 := by
  induction scenes generalizing m i with
  | nil => exact ⟨rfl, rfl⟩
  | cons s rest ih =>
      obtain ⟨hstate, hsteps⟩ :=
        Action.locatedFrom_traverseFrom Mending.step (Place.ofScene i) 0 m s.actions
      obtain ⟨hmending, hlocated⟩ := ih
        (Action.traverseFrom Mending.step (Place.ofScene i) 0 m s.actions).1 (i + 1)
      have hcons : ∀ (s : Scene α) (rest : List (Scene α)),
          locatedFrom i (s :: rest) = s.located i ++ locatedFrom (i + 1) rest := by
        intro s rest
        rw [locatedFrom, List.zipIdx_cons, List.flatMap_cons]
        rfl
      rw [repairActions, hcons, hcons, Action.handOn_append, hmending, hlocated]
      dsimp only
      rw [hstate]
      refine ⟨rfl, ?_⟩
      rw [← Scene.located] at hstate hsteps
      exact congrArg (· ++ _) hsteps

theorem map_actions_repairCameras [Scalar α] (i : Nat) (scenes : List (Scene α)) :
    (repairCameras i scenes).1.map Scene.actions = scenes.map Scene.actions := by
  induction scenes generalizing i with
  | nil => rfl
  | cons s rest ih => exact congrArg (s.actions :: ·) (ih (i + 1))

theorem map_actions_repairSceneIds (taken : List String) (i : Nat) (scenes : List (Scene α)) :
    (repairSceneIds taken i scenes).1.map Scene.actions = scenes.map Scene.actions := by
  induction scenes generalizing taken i with
  | nil => rfl
  | cons s rest ih =>
      rw [repairSceneIds]
      split_ifs
      · exact congrArg (s.actions :: ·) (ih _ (i + 1))
      · exact congrArg (s.actions :: ·) (ih _ (i + 1))

/-- The steps of a mended script are those of the script, mended one after the other. -/
theorem located_mended [Scalar α] (s : Script α) :
    s.mended.1.located = (Action.handOn Mending.step ⟨[], []⟩ s.located).2 := by
  have hsteps := located_repairActions ⟨[], []⟩ 0
    (repairSceneIds [] 0 (repairCameras 0 s.scenes).1).1
  rw [locatedFrom_congr 0 ((map_actions_repairSceneIds [] 0 _).trans
    (map_actions_repairCameras 0 s.scenes))] at hsteps
  exact hsteps.2

theorem fixes_mended [Scalar α] (s : Script α) :
    s.mended.2 = (repairCameras 0 s.scenes).2 ++
      (repairSceneIds [] 0 (repairCameras 0 s.scenes).1).2 ++
      (Action.handOn Mending.step ⟨[], []⟩ s.located).1.fixes := by
  have hsteps := located_repairActions ⟨[], []⟩ 0
    (repairSceneIds [] 0 (repairCameras 0 s.scenes).1).1
  rw [locatedFrom_congr 0 ((map_actions_repairSceneIds [] 0 _).trans
    (map_actions_repairCameras 0 s.scenes))] at hsteps
  exact congrArg (_ ++ Mending.fixes ·) hsteps.1

/-! ## Where the fixes of a script are -/

theorem path_of_mem_repairCameras [Scalar α] {i : Nat} {scenes : List (Scene α)} {f : Fix α}
    (h : f ∈ (repairCameras i scenes).2) :
    ∃ j, f.path = scenePath j ++ ".camera" ∨
      f.path = scenePath j ++ ".camera" ++ ".spherical.phi" := by
  induction scenes generalizing i with
  | nil => exact absurd h List.not_mem_nil
  | cons s rest ih =>
      rcases List.mem_append.mp h with h | h
      · refine ⟨i, ?_⟩
        dsimp only at h
        split at h
        · split at h
          · exact Or.inl (congrArg Fix.path (List.mem_singleton.mp h))
          · exact absurd h List.not_mem_nil
        · split at h
          · exact Or.inr (congrArg Fix.path (List.mem_singleton.mp h))
          · exact absurd h List.not_mem_nil
        · exact absurd h List.not_mem_nil
      · exact ih h

theorem path_of_mem_repairSceneIds {taken : List String} {i : Nat} {scenes : List (Scene α)}
    {f : Fix α} (h : f ∈ (repairSceneIds taken i scenes).2) :
    ∃ j, f.path = scenePath j ++ ".id" := by
  induction scenes generalizing taken i with
  | nil => exact absurd h List.not_mem_nil
  | cons s rest ih =>
      rw [repairSceneIds] at h
      split_ifs at h
      · rcases List.mem_cons.mp h with rfl | h
        · exact ⟨i, rfl⟩
        · exact ih h
      · exact ih h

/-- The path of a name ends differently from those of what is wrong with a camera. -/
theorem field_id_ne_camera (place : Place) (front : String) :
    place.field "id" ≠ front ++ ".camera" ∧
      place.field "id" ≠ front ++ ".camera" ++ ".spherical.phi" := by
  constructor
  · intro h
    have hlast := congrArg (fun path => path.toList.getLast?) h
    simp [Place.field] at hlast
  · intro h
    have hlast := congrArg (fun path => path.toList.getLast?) h
    simp [Place.field] at hlast

/-- A fix at the name of an element of the script is one of the mending of its steps. -/
theorem mem_fixes_of_path [Scalar α] {s : Script α} {place : Place}
    (hplace : place ∈ s.located.map Prod.fst) {f : Fix α} (h : f ∈ s.mended.2)
    (hpath : f.path = place.field "id") :
    f ∈ (Action.handOn Mending.step ⟨[], []⟩ s.located).1.fixes := by
  rw [fixes_mended] at h
  rcases List.mem_append.mp h with h | h
  · rcases List.mem_append.mp h with h | h
    · obtain ⟨j, hj | hj⟩ := path_of_mem_repairCameras h
      · exact absurd (hpath.symm.trans hj) (field_id_ne_camera place _).1
      · exact absurd (hpath.symm.trans hj) (field_id_ne_camera place _).2
    · obtain ⟨j, hj⟩ := path_of_mem_repairSceneIds h
      obtain ⟨e, he, rfl⟩ := List.mem_map.mp hplace
      obtain ⟨i, hscene⟩ := exists_isInScene_of_mem_located he
      exact absurd (hpath.symm.trans hj) (hscene.field_id_ne_scenePath j)
  · exact h

end Script

/-- A repair gave a name to the element that is created at a place. -/
def Outcome.Gave (o : Outcome α) (place : Place) (name : String) : Prop :=
  ∃ f ∈ o.fixes, f.path = place.field "id" ∧ f.after = .text name

namespace Script

section Mended

variable [Scalar α] {s : Script α}

/-- Before and after a mending the steps are at the same places. -/
theorem map_fst_located_mended (s : Script α) :
    s.mended.1.located.map Prod.fst = s.located.map Prod.fst := by
  rw [located_mended, Action.map_fst_handOn]

/-- A mended step, with the steps around it and what they left to it. -/
theorem exists_split {place : Place} {step : Step α} (h : (place, step) ∈ s.located) :
    ∃ m : Mending α, ∃ front back front' back',
      s.located = front ++ (place, step) :: back ∧
      s.mended.1.located = front' ++ (place, (m.step place step).2) :: back' ∧
      front'.map Prod.fst = front.map Prod.fst ∧
      m.taken = front'.filterMap (fun e => e.2.claimedName?) ∧
      (m.step place step).1.fixes ⊆
        (Action.handOn Mending.step ⟨[], []⟩ s.located).1.fixes := by
  obtain ⟨front, back, hsplit⟩ := List.append_of_mem h
  have hrun := Action.handOn_append_cons Mending.step ⟨[], []⟩ front place step back
  rw [← hsplit] at hrun
  have hmended := s.located_mended
  rw [hrun] at hmended
  refine ⟨_, front, back, _, _, hsplit, hmended, Action.map_fst_handOn _ _ _,
    Mending.taken_handOn ⟨[], []⟩ front, ?_⟩
  rw [hrun]
  exact Mending.fixes_subset_handOn _ back

theorem mem_located_mended {place : Place} {step : Step α} (h : (place, step) ∈ s.located) :
    (step.createdId? = none → (place, step) ∈ s.mended.1.located) ∧
    ∀ id, step.createdId? = some id → ∃ name, place ∈ s.mended.1.creators name := by
  obtain ⟨m, front, back, front', back', -, hmended, -⟩ := exists_split h
  have hmem : (place, (m.step place step).2) ∈ s.mended.1.located := by
    rw [hmended]
    exact List.mem_append_right _ List.mem_cons_self
  constructor
  · intro hnone
    rw [(m.step_of_createdId?_eq_none place hnone).1] at hmem
    exact hmem
  · intro id hid
    obtain ⟨color, shape, rfl⟩ := Step.eq_create_of_createdId? hid
    obtain ⟨name, hname, -⟩ := m.step_create place id color shape
    rw [hname] at hmem
    exact ⟨name, mem_creators.mpr ⟨_, hmem, rfl⟩⟩

/-- After a mending no step claims a name before the element that has it. -/
theorem pairwise_mended (s : Script α) :
    s.mended.1.located.Pairwise fun e e' =>
      ∀ name, e'.2.createdId? = some (some name) → e.2.claimedName? ≠ some name := by
  rw [located_mended]
  exact Mending.pairwise_handOn _ _

/-- After a mending no two elements have the same name. -/
theorem creators_mended_eq {place : Place} {name : String}
    (h : place ∈ s.mended.1.creators name) : s.mended.1.creators name = [place] := by
  have hfilter : (s.mended.1.located.filter fun e =>
      e.2.createdId? = some (some name)).Pairwise fun _ _ => False := by
    refine (List.Pairwise.and_mem.mp (s.pairwise_mended.filter _)).imp ?_
    rintro e e' ⟨he, he', hnew⟩
    have hcreated : e.2.createdId? = some (some name) := by
      simpa using (List.mem_filter.mp he).2
    have hcreated' : e'.2.createdId? = some (some name) := by
      simpa using (List.mem_filter.mp he').2
    exact hnew name hcreated' (Step.claimedName?_of_createdId? hcreated)
  unfold creators at h ⊢
  cases hlist : s.mended.1.located.filter fun e => e.2.createdId? = some (some name) with
  | nil =>
      rw [hlist] at h
      exact absurd h List.not_mem_nil
  | cons e rest =>
      rw [hlist] at h hfilter
      cases rest with
      | nil =>
          rw [List.map_singleton] at h ⊢
          rw [List.mem_singleton.mp h]
      | cons e' rest => exact ((List.pairwise_cons.mp hfilter).1 e' List.mem_cons_self).elim

theorem isBlank_of_mem_creators_mended {place : Place} {name : String}
    (h : place ∈ s.mended.1.creators name) : Text.isBlank name = false := by
  obtain ⟨step', hmem', hcreated⟩ := mem_creators.mp h
  have hplace : place ∈ s.located.map Prod.fst := by
    rw [← s.map_fst_located_mended]
    exact List.mem_map.mpr ⟨_, hmem', rfl⟩
  obtain ⟨⟨place, step⟩, hmem, rfl⟩ := List.mem_map.mp hplace
  obtain ⟨m, front, back, front', back', -, hmended, -⟩ := exists_split hmem
  have hstep : (m.step place step).2 = step' := by
    refine step_unique ?_ hmem'
    rw [hmended]
    exact List.mem_append_right _ List.mem_cons_self
  rw [← hstep] at hcreated
  exact (Mending.new_of_createdId? hcreated).2

/-- The fixes of names are logged where an element has a name that it did not have. -/
theorem exists_fix_iff {place : Place} (hplace : place ∈ s.located.map Prod.fst)
    {name : String} :
    (∃ f ∈ s.mended.2, f.path = place.field "id" ∧ f.after = .text name) ↔
      place ∈ s.mended.1.creators name ∧ place ∉ s.creators name := by
  constructor
  · rintro ⟨f, hf, hpath, hafter⟩
    obtain ⟨other, step, step', name', hstep, hstep', hpath', hafter', hcreated, hne⟩ :=
      (Mending.mem_fixes_handOn (mem_fixes_of_path hplace hf hpath)).resolve_left
        List.not_mem_nil
    rw [← located_mended] at hstep'
    obtain ⟨e, he, rfl⟩ := List.mem_map.mp hplace
    obtain ⟨i, hscene⟩ := exists_isInScene_of_mem_located he
    obtain ⟨j, hscene'⟩ := exists_isInScene_of_mem_located hstep
    obtain rfl : e.1 = other := hscene.eq_of_field_id hscene' (hpath.symm.trans hpath')
    obtain rfl : name = name' := by
      rw [hafter] at hafter'
      injection hafter'
    refine ⟨mem_creators.mpr ⟨step', hstep', hcreated⟩, ?_⟩
    intro hmem
    obtain ⟨other, hother, hcreated'⟩ := mem_creators.mp hmem
    rw [step_unique hstep hother] at hne
    exact hne hcreated'
  · rintro ⟨hmem', hnot⟩
    obtain ⟨step', hstep', hcreated⟩ := mem_creators.mp hmem'
    obtain ⟨⟨place, step⟩, hstep, rfl⟩ := List.mem_map.mp hplace
    obtain ⟨m, front, back, front', back', -, hmended, -, -, hfixes⟩ := exists_split hstep
    have heq : (m.step place step).2 = step' := by
      refine step_unique ?_ hstep'
      rw [hmended]
      exact List.mem_append_right _ List.mem_cons_self
    rw [← heq] at hcreated
    have hne : step.createdId? ≠ some (some name) :=
      fun hold => hnot (mem_creators.mpr ⟨step, hstep, hold⟩)
    obtain ⟨f, hf, hpath, hafter⟩ := Mending.exists_fix_of_createdId? hcreated hne
    refine ⟨f, ?_, hpath, hafter⟩
    rw [fixes_mended]
    exact List.mem_append_right _ (hfixes hf)

/-- What could not be read claims a name ahead of a place. -/
def ClaimedUnread (s : Script α) (name : String) (place : Place) : Prop :=
  ∃ other u, (other, .unread u) ∈ s.located ∧
    (Step.unread u : Step α).claimedName? = some name ∧ s.position other < s.position place

theorem mem_located_of_unread {place : Place} {u : Unread}
    (h : (place, .unread u) ∈ s.mended.1.located) : (place, .unread u) ∈ s.located := by
  have hplace : place ∈ s.located.map Prod.fst := by
    rw [← s.map_fst_located_mended]
    exact List.mem_map.mpr ⟨_, h, rfl⟩
  obtain ⟨⟨place, step⟩, hstep, rfl⟩ := List.mem_map.mp hplace
  obtain ⟨hkept, hnamed⟩ := mem_located_mended hstep
  cases hcreated : step.createdId? with
  | none =>
      rw [← step_unique (hkept hcreated) h]
      exact hstep
  | some id =>
      obtain ⟨name, hname⟩ := hnamed id hcreated
      obtain ⟨step', hstep', hcreated'⟩ := mem_creators.mp hname
      rw [step_unique hstep' h] at hcreated'
      cases hcreated'

/--
The only element that has a name keeps it, unless a step further up claims the name:
one that could not be read, or one that the name was given to.
-/
theorem kept_or_claimed {place : Place} {name : String} (h : s.creators name = [place])
    (hblank : Text.isBlank name = false) :
    place ∈ s.mended.1.creators name ∨
      s.ClaimedUnread name place ∨
      ∃ other ∈ s.mended.1.creators name, s.position other < s.position place := by
  have hmem : place ∈ s.creators name := by
    rw [h]
    exact List.mem_cons_self
  obtain ⟨step, hstep, hcreated⟩ := mem_creators.mp hmem
  obtain ⟨m, front, back, front', back', hsplit, hmended, hplaces, htaken, -⟩ :=
    exists_split hstep
  obtain ⟨color, shape, rfl⟩ := Step.eq_create_of_createdId? hcreated
  obtain ⟨name', hname', -, -, -, hcase⟩ := m.step_create place (some name) color shape
  rw [hname'] at hmended
  rcases hcase with ⟨hsame, -⟩ | ⟨-, hreason, -⟩
  · -- the name could stand
    obtain rfl : name = name' := Option.some_inj.mp hsame
    refine Or.inl (mem_creators.mpr ⟨.create (some name) color shape, ?_, rfl⟩)
    rw [hmended]
    exact List.mem_append_right _ List.mem_cons_self
  · -- the name was taken by a step further up
    have hin : name ∈ m.taken := (hreason name rfl).resolve_left (by simp [hblank])
    rw [htaken] at hin
    obtain ⟨⟨other, step'⟩, hmem', hclaimed⟩ := List.mem_filterMap.mp hin
    have hfront : other ∈ front.map Prod.fst := by
      rw [← hplaces]
      exact List.mem_map.mpr ⟨_, hmem', rfl⟩
    have hbefore := position_lt_of_split hsplit hfront
    have hother : (other, step') ∈ s.mended.1.located := by
      rw [hmended]
      exact List.mem_append_left _ hmem'
    rcases Step.createdId?_or_unread hclaimed with hcreated' | ⟨u, rfl⟩
    · exact Or.inr (Or.inr ⟨other, mem_creators.mpr ⟨step', hother, hcreated'⟩, hbefore⟩)
    · exact Or.inr (Or.inl ⟨other, u, mem_located_of_unread hother, hclaimed, hbefore⟩)

/-- A step that comes first does not claim the name of an element further down. -/
theorem not_claimed_of_position_lt {place other : Place} {name : String} {step : Step α}
    (hother : (other, step) ∈ s.mended.1.located) (hplace : place ∈ s.mended.1.creators name)
    (hbefore : s.position other < s.position place) : step.claimedName? ≠ some name := by
  obtain ⟨step', hstep', hcreated⟩ := mem_creators.mp hplace
  obtain ⟨i, hi, hgeti⟩ := List.getElem_of_mem hother
  obtain ⟨j, hj, hgetj⟩ := List.getElem_of_mem hstep'
  have hpositions : ∀ place, s.mended.1.position place = s.position place := by
    intro place
    rw [position, position, map_fst_located_mended]
  have hlt : i < j := by
    have hposi := position_of_getElem hi
    have hposj := position_of_getElem hj
    rw [hgeti, hpositions] at hposi
    rw [hgetj, hpositions] at hposj
    rwa [hposi, hposj] at hbefore
  have hnew := List.pairwise_iff_getElem.mp s.pairwise_mended i j hi hj hlt name
  rw [hgeti, hgetj] at hnew
  exact hnew hcreated

end Mended

end Script

end Storyboard
