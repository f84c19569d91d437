import Storyboard.Proofs.Review.Fixes
import Storyboard.Proofs.Review.Findings
import Storyboard.Proofs.Review.Mending
import Storyboard.Number.Written

/-!
# The review of a repaired script

Cameras, names of scenes and names of elements are repaired one after the other.
Seen scene by scene this is one pass, and beside it run the reviews of the script as
it was and as it is repaired.  The second finds nothing that cannot be mended and
that the first did not find, and what can be mended it finds only at the names that
are claimed by steps that could not be read.
-/

namespace Storyboard

variable {α : Type}

/-- A defect of the name that is claimed by one of some steps that could not be read. -/
def IsUnreadClaim (steps : List (Place × Step α)) (d : Finding Defect) : Prop :=
  (d.kind = .missingId ∨ d.kind = .duplicateId) ∧
    ∃ place u, (place, .unread u) ∈ steps ∧ (Step.unread u : Step α).claim?.isSome ∧
      d.path = place.field "id"

theorem IsUnreadClaim.mono {steps steps' : List (Place × Step α)} {d : Finding Defect}
    (h : IsUnreadClaim steps d) (hsteps : steps ⊆ steps') : IsUnreadClaim steps' d := by
  obtain ⟨hkind, place, u, hmem, hclaim, hpath⟩ := h
  exact ⟨hkind, place, u, hsteps hmem, hclaim, hpath⟩

/-! ## The steps of a scene -/

section Steps

variable [Scalar α] [NumberText α] {refs : References}

theorem Mending.InStep.handOn {m : Mending α} {scope scope' : Progress}
    (h : m.InStep scope.created scope'.created) (steps : List (Place × Step α)) :
    (Action.handOn Mending.step m steps).1.InStep (scope.reviewSteps refs steps).created
      (scope'.reviewSteps refs (Action.handOn Mending.step m steps).2).created := by
  induction steps generalizing m scope scope' with
  | nil => exact h
  | cons e rest ih =>
      have hnext : (m.step e.1 e.2).1.InStep (scope.review refs e).created
          (scope'.review refs (e.1, (m.step e.1 e.2).2)).created := h.step e.1 e.2
      exact ih hnext

theorem Mending.InStep.mem_reviewSteps {m : Mending α} {scope scope' : Progress}
    (h : m.InStep scope.created scope'.created) {steps : List (Place × Step α)}
    {d : Finding Defect}
    (hd : d ∈ (scope'.reviewSteps refs (Action.handOn Mending.step m steps).2).defects) :
    d ∈ scope'.defects ∨
      d.kind.isMendable = false ∧ d ∈ (scope.reviewSteps refs steps).defects ∨
      IsUnreadClaim (Action.handOn Mending.step m steps).2 d := by
  induction steps generalizing m scope scope' with
  | nil => exact Or.inl hd
  | cons e rest ih =>
      have hnext : (m.step e.1 e.2).1.InStep (scope.review refs e).created
          (scope'.review refs (e.1, (m.step e.1 e.2).2)).created := h.step e.1 e.2
      rcases ih hnext hd with hnow | hold | hclaim
      · rcases List.mem_append.mp hnow with hbefore | hstep
        · exact Or.inl hbefore
        · rcases h.mem_defects hstep with ⟨hkind, hmem⟩ | ⟨hkind, hpath, u, hu, hclaim⟩
          · exact Or.inr (Or.inl ⟨hkind, Progress.defects_subset_reviewSteps _ rest
              (List.mem_append_right _ hmem)⟩)
          · refine Or.inr (Or.inr ⟨hkind, e.1, u, ?_, hclaim, hpath⟩)
            rw [← hu]
            exact List.mem_cons_self
      · exact Or.inr (Or.inl hold)
      · exact Or.inr (Or.inr (hclaim.mono (List.subset_cons_self _ _)))

end Steps

/-! ## The scenes of a script -/

/-- A scene repaired in one go, given the names of the scenes before it, with the mending. -/
def Scene.mend [Scalar α] (names : List String) (m : Mending α) (i : Nat) (s : Scene α) :
    Mending α × Scene α :=
  let mended := Action.traverseFrom Mending.step (Place.ofScene i) 0 m s.actions
  (mended.1,
    { s with
      id := if names.contains s.id then freeName names s.id else s.id
      camera := (s.camera.repaired (scenePath i ++ ".camera")).1
      actions := mended.2 })

/-- Scenes from the `i`-th on repaired one after the other. -/
def mendScenes [Scalar α] (names : List String) (m : Mending α) (i : Nat) :
    List (Scene α) → List (Scene α)
  | [] => []
  | s :: rest =>
    (s.mend names m i).2 ::
      mendScenes (names ++ [(s.mend names m i).2.id]) (s.mend names m i).1 (i + 1) rest

namespace Script

theorem repairActions_repairSceneIds [Scalar α] (names : List String) (m : Mending α) (i : Nat)
    (scenes : List (Scene α)) :
    (repairActions m i (repairSceneIds names i (repairCameras i scenes).1).1).1 =
      mendScenes names m i scenes := by
  induction scenes generalizing names m i with
  | nil => rfl
  | cons s rest ih =>
      rw [mendScenes, ← ih]
      by_cases htaken : names.contains s.id = true
      · simp only [repairCameras, repairSceneIds, htaken, if_true, repairActions, Scene.mend]
      · simp only [repairCameras, repairSceneIds, htaken, Scene.mend]
        rfl

/-- A mended script is the script repaired scene by scene. -/
theorem scenes_mended [Scalar α] (s : Script α) :
    s.mended.1.scenes = mendScenes [] ⟨[], []⟩ 0 s.scenes :=
  repairActions_repairSceneIds [] ⟨[], []⟩ 0 s.scenes

end Script

/-! ## The two reviews of the scenes -/

namespace Scene

theorem located_mend [Scalar α] (names : List String) (m : Mending α) (i : Nat) (s : Scene α) :
    (s.mend names m i).1 = (Action.handOn Mending.step m (s.located i)).1 ∧
      (s.mend names m i).2.located i =
        (Action.handOn Mending.step m (s.located i)).2 :=
  Action.locatedFrom_traverseFrom Mending.step (Place.ofScene i) 0 m s.actions

theorem id_mend_not_mem [Scalar α] (names : List String) (m : Mending α) (i : Nat) (s : Scene α) :
    (s.mend names m i).2.id ∉ names := by
  change (if names.contains s.id then freeName names s.id else s.id) ∉ names
  split_ifs with htaken
  · exact freeName_not_mem names s.id
  · simpa using htaken

variable [Scalar α] [NumberText α] {refs : References} {m : Mending α}
  {scope scope' : Progress}

theorem inStep_mend (h : m.InStep scope.created scope'.created)
    (names earlier : List String) (i : Nat) (s : Scene α) :
    (s.mend names m i).1.InStep (s.review refs earlier scope i).created
      ((s.mend names m i).2.review refs names scope' i).created := by
  obtain ⟨hmending, hlocated⟩ := s.located_mend names m i
  rw [hmending, review, review, hlocated]
  have hopened : m.InStep (scope.add (s.openingDefects refs earlier scope.created i)).created
      (scope'.add ((s.mend names m i).2.openingDefects refs names scope'.created i)).created := h
  exact hopened.handOn (s.located i)

variable [FiniteOrder α]

theorem mem_openingDefects_mend {names earlier created created' : List String}
    (hcreated : created ⊆ created') {i : Nat} {s : Scene α} {d : Finding Defect}
    (hd : d ∈ (s.mend names m i).2.openingDefects refs names created' i) :
    d.kind.isMendable = false ∧ d ∈ s.openingDefects refs earlier created i := by
  rcases List.mem_append.mp hd with hd | hd
  · rcases List.mem_append.mp hd with hd | hd
    · obtain ⟨htaken, -⟩ := Finding.mem_when.mp hd
      exact absurd (List.contains_iff_mem.mp htaken) (id_mend_not_mem names m i s)
    · obtain ⟨hkind, hmem⟩ := Camera.mem_defects_repaired hcreated hd
      exact ⟨hkind, List.mem_append_left _ (List.mem_append_right _ hmem)⟩
  · refine ⟨?_, List.mem_append_right _ hd⟩
    obtain ⟨e, -, hmem⟩ := List.mem_flatMap.mp hd
    obtain ⟨-, rfl⟩ := Finding.mem_when.mp hmem
    rfl

theorem mem_review_mend (h : m.InStep scope.created scope'.created)
    {names earlier : List String} {i : Nat} {s : Scene α} {d : Finding Defect}
    (hd : d ∈ ((s.mend names m i).2.review refs names scope' i).defects) :
    d ∈ scope'.defects ∨
      d.kind.isMendable = false ∧ d ∈ (s.review refs earlier scope i).defects ∨
      IsUnreadClaim ((s.mend names m i).2.located i) d := by
  obtain ⟨-, hlocated⟩ := s.located_mend names m i
  rw [review, hlocated] at hd
  rw [hlocated]
  let opened := scope.add (s.openingDefects refs earlier scope.created i)
  have hopened : m.InStep opened.created (scope'.add
      ((s.mend names m i).2.openingDefects refs names scope'.created i)).created := h
  rcases hopened.mem_reviewSteps hd with hnow | hold
  · rcases List.mem_append.mp hnow with hbefore | hopening
    · exact Or.inl hbefore
    · obtain ⟨hkind, hmem⟩ := mem_openingDefects_mend h.kept hopening
      exact Or.inr (Or.inl ⟨hkind, Progress.defects_subset_reviewSteps opened _
        (List.mem_append_right _ hmem)⟩)
  · exact Or.inr hold

end Scene

namespace Script

variable [Scalar α] [NumberText α] {refs : References}

theorem mem_reviewFrom_mendScenes [FiniteOrder α] {m : Mending α} {scope scope' : Progress}
    (h : m.InStep scope.created scope'.created) {names earlier : List String} {i : Nat}
    {scenes : List (Scene α)} {d : Finding Defect}
    (hd : d ∈ (reviewFrom refs names scope' i (mendScenes names m i scenes)).defects) :
    d ∈ scope'.defects ∨
      d.kind.isMendable = false ∧ d ∈ (reviewFrom refs earlier scope i scenes).defects ∨
      IsUnreadClaim (((mendScenes names m i scenes).zipIdx i).flatMap fun (s, j) =>
        s.located j) d := by
  induction scenes generalizing m scope scope' names earlier i with
  | nil => exact Or.inl hd
  | cons s rest ih =>
      rw [mendScenes, List.zipIdx_cons, List.flatMap_cons]
      rcases ih (s.inStep_mend h names earlier i) hd with hnow | hold | hclaim
      · rcases Scene.mem_review_mend h hnow with hbefore | ⟨hkind, hmem⟩ | hclaim
        · exact Or.inl hbefore
        · exact Or.inr (Or.inl ⟨hkind, defects_subset_reviewFrom _ _ _ rest hmem⟩)
        · exact Or.inr (Or.inr (hclaim.mono (List.subset_append_left _ _)))
      · exact Or.inr (Or.inl hold)
      · exact Or.inr (Or.inr (hclaim.mono (List.subset_append_right _ _)))

/-- A defect of a mended script is an old one or one of a claim that could not be read. -/
theorem mem_review_mended [FiniteOrder α] {standards : Standards α} {m : Model α}
    {s : Script α} {d : Finding Defect}
    (hd : d ∈ (s.mended.1.review standards m).defects) :
    d.kind.isMendable = false ∧ d ∈ (s.review standards m).defects ∨
      IsUnreadClaim s.mended.1.located d := by
  change d ∈ (reviewFrom (References.ofModel m) [] Progress.empty 0
    s.mended.1.scenes).defects at hd
  rw [scenes_mended] at hd
  rw [located, scenes_mended]
  have hempty : (⟨[], []⟩ : Mending α).InStep Progress.empty.created
      Progress.empty.created := Mending.InStep.empty
  rcases mem_reviewFrom_mendScenes hempty hd with hnone | hold
  · exact absurd hnone List.not_mem_nil
  · exact hold

end Script

/-! ## Repair -/

namespace Script

theorem repair_eq_some [Scalar α] {s s' : Script α} {defects : List (Finding Defect)}
    (h : (s.repair defects).script = some s') :
    s' = s.mended.1 ∧ (s.repair defects).remaining =
      defects.filter (fun d => !isFixed s.mended.2 d) ∧
      (s.repair defects).fixed = (s.repair defects).remaining.isEmpty := by
  unfold repair at h ⊢
  split at h
  next hany =>
    rw [if_pos hany]
    exact ⟨(Option.some_inj.mp h).symm, rfl, rfl⟩
  next => cases h

/-- A name that is claimed by what could not be read is at no other name's path. -/
theorem path_ne_of_isUnreadClaim {s : Script α} {d : Finding Defect}
    (h : IsUnreadClaim s.located d) :
    (∀ i, d.path ≠ scenePath i ++ ".id") ∧
      ∀ place id color shape, (place, .create id color shape) ∈ s.located →
        d.path ≠ place.field "id" := by
  obtain ⟨-, place, u, hmem, -, hpath⟩ := h
  obtain ⟨j, hscene⟩ := exists_isInScene_of_mem_located hmem
  rw [hpath]
  refine ⟨fun i => hscene.field_id_ne_scenePath i, ?_⟩
  intro other id color shape hother heq
  obtain ⟨i, hscene'⟩ := exists_isInScene_of_mem_located hother
  obtain rfl : place = other := hscene.eq_of_field_id hscene' heq
  have hstep := List.inj_on_of_nodup_map s.nodup_located hmem hother rfl
  cases (Prod.mk.inj hstep).2

/--
The review of a repaired script.  It finds no defect that cannot be mended and that
the review before the repair did not find.  What can be mended it finds only at names
that are claimed by steps that could not be read, which are not the paths of any other
names.  And if the repair leaves no defect the repaired script is valid.
-/
theorem review_repair [Scalar α] [NumberText α] [FiniteOrder α] {standards : Standards α}
    {m : Model α} {s s' : Script α}
    (h : (s.repair (s.review standards m).defects).script = some s') :
    (∀ d ∈ (s'.review standards m).defects, d.kind.isMendable = false →
      ∃ d' ∈ (s.review standards m).defects, d'.kind = d.kind ∧ d'.path = d.path) ∧
    (∀ d ∈ (s'.review standards m).defects, d.kind.isMendable = true →
      (d.kind = .missingId ∨ d.kind = .duplicateId) ∧
      (∃ place u, (place, .unread u) ∈ s'.located ∧
        (Step.unread u : Step α).claim?.isSome ∧ d.path = place.field "id") ∧
      (∀ i, d.path ≠ scenePath i ++ ".id") ∧
      ∀ place id color shape, (place, .create id color shape) ∈ s'.located →
        d.path ≠ place.field "id") ∧
    ((s.repair (s.review standards m).defects).fixed = true →
      (s'.review standards m).valid = true) := by
  obtain ⟨rfl, hremaining, hfixed⟩ := repair_eq_some h
  have hold : ∀ d ∈ (s.mended.1.review standards m).defects, d.kind.isMendable = false →
      d ∈ (s.review standards m).defects := by
    intro d hd hkind
    rcases mem_review_mended hd with ⟨-, hmem⟩ | ⟨hkind' | hkind', -⟩
    · exact hmem
    · rw [hkind'] at hkind
      cases hkind
    · rw [hkind'] at hkind
      cases hkind
  refine ⟨fun d hd hkind => ⟨d, hold d hd hkind, rfl, rfl⟩, fun d hd hkind => ?_, fun hf => ?_⟩
  · rcases mem_review_mended hd with ⟨hkind', -⟩ | hclaim
    · rw [hkind] at hkind'
      cases hkind'
    · obtain ⟨hids, hplace⟩ := id hclaim
      exact ⟨hids, hplace, path_ne_of_isUnreadClaim hclaim⟩
  · -- all defects were fixed, so that none was one that cannot be mended
    rw [hfixed, hremaining, List.isEmpty_iff, List.filter_eq_nil_iff] at hf
    have hmendable : ∀ d ∈ (s.mended.1.review standards m).defects,
        d.kind.isMendable ≠ false := by
      intro d hd hkind
      refine hf d (hold d hd hkind) ?_
      rw [s.isFixed_mended_eq_false hkind]
      rfl
    change (s.mended.1.review standards m).defects.isEmpty = true
    rw [List.isEmpty_iff, List.eq_nil_iff_forall_not_mem]
    intro d hd
    rcases mem_review_mended hd with ⟨hkind, -⟩ | ⟨-, place, u, hmem, -, -⟩
    · exact hmendable d hd hkind
    · exact hmendable _ (defect_mem_review hmem) (u.isMendable_defect place)

/-- A cube on which nothing is declared. -/
def plainCube : Model Float := ⟨⟨.cube, none, none⟩, [], [], [], []⟩

/--
A script of one scene with a camera that does not exist, a line without a name, and
a line with the very name that is made up for the first.
-/
def unnamedScript : Script Float where
  title := ""
  scenes := [{
    id := "lines"
    narration := ""
    camera := .preset "below"
    actions :=
      [.step (.create none none (.line "A" "C" none)),
        .step (.create (some "line_A_C") none (.line "B" "D" none))]
    measurements := none }]

theorem review_repair_unnamed :
    ∃ s', (unnamedScript.repair
        (unnamedScript.review Standards.usual plainCube).defects).script = some s' ∧
      (s'.review Standards.usual plainCube).valid = true := by
  have hscript : (unnamedScript.repair
      (unnamedScript.review Standards.usual plainCube).defects).script.isSome = true := by
    decide +kernel
  have hfixed : (unnamedScript.repair
      (unnamedScript.review Standards.usual plainCube).defects).fixed = true := by
    decide +kernel
  obtain ⟨s', hs'⟩ := Option.isSome_iff_exists.mp hscript
  exact ⟨s', hs', (review_repair hs').2.2 hfixed⟩

end Script

end Storyboard
