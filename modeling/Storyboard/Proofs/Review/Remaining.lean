import Storyboard.Proofs.Review.Log
import Storyboard.Proofs.Review.Scan

/-!
# The defects that remain

A review and a repair go through a script each with names of its own: the review looks
back at the names as they were, the repair at those it has left.  Whatever name has been
claimed has been taken, so that a repair gives another name wherever the review finds
that a name is missing or taken, and brings every camera into bounds that the review
finds to be out of them.  What it cannot mend are defects of other kinds, and names that
are claimed by what could not be read, at whose paths no fix is ever made.
-/

namespace Storyboard

variable {α : Type}

/-- A fix was made for a defect: one of its kind at its path. -/
def Fix.IsFor (f : Fix α) (d : Finding Defect) : Prop := f.kind = d.kind ∧ f.path = d.path

theorem Script.isFixed_iff {fixes : List (Fix α)} {d : Finding Defect} :
    isFixed fixes d = true ↔ ∃ f ∈ fixes, f.IsFor d := by
  simp [isFixed, Fix.IsFor]

theorem Step.verb?_eq_none_iff {s : Step α} : s.verb? = none ↔ ∃ u, s = .unread u := by
  cases s <;> simp [verb?]

theorem isUnreadClaim_iff {steps : List (Place × Step α)} {d : Finding Defect} :
    IsUnreadClaim steps d ↔ (d.kind = .missingId ∨ d.kind = .duplicateId) ∧
      ∃ e ∈ steps, e.2.verb? = none ∧ e.2.claim?.isSome ∧ d.path = e.1.field "id" := by
  refine and_congr_right fun _ => ⟨?_, ?_⟩
  · rintro ⟨place, u, hmem, hclaim, hpath⟩
    exact ⟨_, hmem, rfl, hclaim, hpath⟩
  · rintro ⟨⟨place, s⟩, hmem, hverb, hclaim, hpath⟩
    obtain ⟨u, rfl⟩ := Step.verb?_eq_none_iff.mp hverb
    exact ⟨place, u, hmem, hclaim, hpath⟩

instance (steps : List (Place × Step α)) : DecidablePred (IsUnreadClaim steps) :=
  fun _ => decidable_of_iff _ isUnreadClaim_iff.symm

/-! ## No fix where nothing could be read -/

/-- What could not be read holds no datum that a repair might change. -/
theorem Script.field_id_notMem_data {s : Script α} {place : Place} {u : Unread}
    (h : (place, .unread u) ∈ s.located) : place.field "id" ∉ s.data.map Prod.fst := by
  intro hpath
  obtain ⟨i, hplace⟩ := exists_isInScene_of_mem_located h
  obtain ⟨e, he, heq⟩ := List.mem_map.mp hpath
  rcases List.mem_append.mp he with he | he
  · exact hplace.path_ne_field_id he heq
  · obtain ⟨other, step, id, hstep, hcreated, rfl⟩ := Step.mem_dataOf.mp he
    obtain ⟨j, hother⟩ := exists_isInScene_of_mem_located hstep
    obtain rfl : other = place := hother.eq_of_field_id hplace heq
    rw [step_unique hstep h] at hcreated
    cases hcreated

/-- No fix is made for the name that is claimed by what could not be read. -/
theorem Script.not_isFor_of_isUnreadClaim [Scalar α] [FiniteOrder α] {s : Script α}
    {d : Finding Defect} (h : IsUnreadClaim s.located d) : ∀ f ∈ s.mended.2, ¬ f.IsFor d := by
  rintro f hf ⟨-, hpath⟩
  obtain ⟨-, place, u, hmem, -, hplace⟩ := h
  apply field_id_notMem_data hmem
  rw [← hplace, ← hpath]
  exact s.logs_mended.sublist.subset (List.mem_map.mpr ⟨f, hf, rfl⟩)

/-! ## A fix for every defect that can be mended -/

section Steps

variable {m : Mending α} {created : List String}

/-- A missing name or one that is taken is mended, if what was claimed has been taken. -/
theorem Mending.exists_fix_of_mem_claimDefects (h : created ⊆ m.taken) {place : Place}
    {id color : Option String} {shape : Shape α} {d : Finding Defect}
    (hd : d ∈ (Step.create id color shape).claimDefects created place) :
    ∃ f ∈ (m.step place (.create id color shape)).1.fixes, f.IsFor d := by
  have hlast : ∀ (kind : Defect) (before : Datum α) (name : String),
      (⟨kind, place.field "id", before, .text name⟩ : Fix α) ∈
        (m.give kind (place.field "id") before name).fixes :=
    fun _ _ _ => List.mem_append_right _ List.mem_cons_self
  cases id with
  | none =>
      obtain rfl := List.mem_singleton.mp hd
      exact ⟨_, hlast .missingId .absent _, rfl, rfl⟩
  | some id =>
      rw [step_create_some]
      by_cases hblank : Text.isBlank id = true
      · simp only [Step.claimDefects, Step.claim?, Option.filter, hblank, Bool.not_true,
          Bool.false_eq_true, if_false, List.mem_singleton] at hd
        subst hd
        rw [if_pos hblank]
        exact ⟨_, hlast .missingId (.text id) _, rfl, rfl⟩
      · rw [if_neg hblank]
        rw [Bool.not_eq_true] at hblank
        simp only [Step.claimDefects, Step.claim?, Option.filter, hblank, Bool.not_false,
          if_true, Finding.mem_when] at hd
        obtain ⟨hcreated, rfl⟩ := hd
        have htaken : m.taken.contains id = true :=
          List.contains_iff_mem.mpr (h (List.contains_iff_mem.mp hcreated))
        rw [if_pos htaken]
        exact ⟨_, hlast .duplicateId (.text id) _, rfl, rfl⟩

variable [Scalar α] [NumberText α]

/-- Whatever name some steps claim has been taken once they are mended. -/
theorem Mending.names_subset_taken (refs : References) (steps : List (Place × Step α)) :
    Step.names steps ⊆ (Action.handOn step ⟨[], []⟩ steps).1.taken := by
  intro id hid
  -- a review of the steps as they are claims the name, and the mending is in step with it
  have hreviewed : ∀ id, id ∈ (Progress.empty.reviewSteps refs steps).created ↔
      id ∈ Step.names steps :=
    (@Progress.defects_reviewSteps α _ _ refs Progress.empty [] (fun _ => Iff.rfl) steps).2
  have hempty : (⟨[], []⟩ : Mending α).InStep Progress.empty.created
      Progress.empty.created := InStep.empty
  have hrun := @InStep.handOn α _ _ refs _ _ _ hempty steps
  exact hrun.taken_of_claimed (hrun.kept ((hreviewed id).mpr hid))

end Steps

section Cameras

variable [Scalar α] [NumberText α] [FiniteOrder α]

/-- An elevation that is found to be out of bounds is out of them in the order of numbers. -/
theorem Camera.out_of_bounds {path : String} {phi : α} {d : Finding Defect}
    (hd : d ∈ elevationDefects path phi) (hkind : d.kind.isMendable = true) :
    (phi < 0 ∨ zenith < phi) ∧ d.kind = .invalidElevation ∧ d.path = path := by
  by_cases hbounds : phi < 0 ∨ zenith < phi
  · refine ⟨hbounds, ?_⟩
    unfold elevationDefects at hd
    split_ifs at hd
    · obtain rfl := List.mem_singleton.mp hd
      cases hkind
    · obtain ⟨-, rfl⟩ := Finding.mem_when.mp hd
      exact ⟨rfl, rfl⟩
  · obtain ⟨hlow, hhigh⟩ := not_or.mp hbounds
    rw [isMendable_of_mem_elevationDefects hlow hhigh hd] at hkind
    cases hkind

theorem Camera.exists_fix_of_mem_defects {refs : References} {created : List String}
    {path : String} {c : Camera α} {d : Finding Defect} (hd : d ∈ c.defects refs created path)
    (hkind : d.kind.isMendable = true) : ∃ f ∈ (c.repaired path).2, f.IsFor d := by
  cases c with
  | preset name =>
      obtain ⟨hname, rfl⟩ := Finding.mem_when.mp hd
      rw [repaired, if_pos hname]
      exact ⟨_, List.mem_cons_self, rfl, rfl⟩
  | full shot =>
      rcases List.mem_append.mp hd with hd | hd
      · obtain ⟨hbounds, hd⟩ := out_of_bounds hd hkind
        simp only [repaired, if_pos hbounds]
        exact ⟨_, List.mem_cons_self, hd.1.symm, hd.2.symm⟩
      · rw [Finding.isMendable_of_mem_when rfl hd] at hkind
        cases hkind
  | unread raw =>
      obtain rfl := List.mem_singleton.mp hd
      cases hkind

end Cameras

namespace Script

/-- The fixes of the camera of each scene are among those of all cameras. -/
theorem repaired_subset_repairCameras [Scalar α] {scenes : List (Scene α)} {scene : Scene α}
    {j : Nat} (h : scenes[j]? = some scene) (i : Nat) :
    (scene.camera.repaired (scenePath (i + j) ++ ".camera")).2 ⊆
      (repairCameras i scenes).2 := by
  induction scenes generalizing i j with
  | nil => cases h
  | cons s rest ih =>
      cases j with
      | zero =>
          obtain rfl := Option.some_inj.mp h
          exact List.subset_append_left _ _
      | succ j =>
          rw [Nat.add_succ, ← Nat.succ_add]
          exact List.Subset.trans (ih h (i + 1)) (List.subset_append_right _ _)

/-- The name of a scene is mended where it is taken, or is that of a scene before. -/
theorem exists_fix_of_mem_take {scenes : List (Scene α)} {taken : List String} {j : Nat}
    {id : String} (h : (scenes.map Scene.id)[j]? = some id)
    (htaken : id ∈ taken ∨ id ∈ (scenes.map Scene.id).take j) (i : Nat) :
    ∃ f ∈ (repairSceneIds taken i scenes).2,
      f.kind = .duplicateId ∧ f.path = scenePath (i + j) ++ ".id" := by
  induction scenes generalizing taken i j with
  | nil => cases h
  | cons s rest ih =>
      cases j with
      | zero =>
          obtain rfl : s.id = id := Option.some_inj.mp h
          have hmem : taken.contains s.id = true :=
            List.contains_iff_mem.mpr (htaken.resolve_right List.not_mem_nil)
          rw [repairSceneIds, if_pos hmem]
          exact ⟨_, List.mem_cons_self, rfl, rfl⟩
      | succ j =>
          rw [List.map_cons, List.take_succ_cons, List.mem_cons] at htaken
          rw [Nat.add_succ, ← Nat.succ_add]
          -- the name of the first scene is taken for the others, whether it is mended or not
          have hrest : ∀ names, taken ⊆ names → s.id ∈ names →
              id ∈ names ∨ id ∈ (rest.map Scene.id).take j := by
            intro names hsubset hmem
            rcases htaken with htaken | rfl | htaken
            · exact Or.inl (hsubset htaken)
            · exact Or.inl hmem
            · exact Or.inr htaken
          by_cases hmem : taken.contains s.id = true
          · rw [repairSceneIds, if_pos hmem]
            obtain ⟨f, hf, hfix⟩ := ih h (hrest _ (List.subset_append_left _ _)
              (List.mem_append_left _ (List.contains_iff_mem.mp hmem))) (i + 1)
            exact ⟨f, List.mem_cons_of_mem _ hf, hfix⟩
          · rw [repairSceneIds, if_neg hmem]
            exact ih h (hrest _ (List.subset_append_left _ _)
              (List.mem_append_right _ List.mem_cons_self)) (i + 1)

variable [Scalar α] [NumberText α] {s : Script α} {refs : References} {d : Finding Defect}

/-- What is found before the actions of a scene is mended in the passes before the actions. -/
theorem exists_fix_of_mem_openingDefects [FiniteOrder α] {i : Nat} {scene : Scene α}
    (hscene : s.scenes[i]? = some scene) {created : List String}
    (hd : d ∈ scene.openingDefects refs ((s.scenes.take i).map Scene.id) created i)
    (hkind : d.kind.isMendable = true) : ∃ f ∈ s.mended.2, f.IsFor d := by
  rw [fixes_mended]
  rcases List.mem_append.mp hd with hd | hd
  · rcases List.mem_append.mp hd with hd | hd
    · obtain ⟨hearlier, rfl⟩ := Finding.mem_when.mp hd
      rw [List.contains_iff_mem, List.map_take, ← map_id_repairCameras 0] at hearlier
      have hid : ((repairCameras 0 s.scenes).1.map Scene.id)[i]? = some scene.id := by
        rw [map_id_repairCameras, List.getElem?_map, hscene]
        rfl
      obtain ⟨f, hf, hkind, hpath⟩ := exists_fix_of_mem_take hid (Or.inr hearlier) 0
      rw [Nat.zero_add] at hpath
      exact ⟨f, List.mem_append_left _ (List.mem_append_right _ hf), hkind, hpath⟩
    · obtain ⟨f, hf, hfix⟩ := Camera.exists_fix_of_mem_defects hd hkind
      have hcamera := repaired_subset_repairCameras hscene 0
      rw [Nat.zero_add] at hcamera
      exact ⟨f, List.mem_append_left _ (List.mem_append_left _ (hcamera hf)), hfix⟩
  · obtain ⟨e, -, hmem⟩ := List.mem_flatMap.mp hd
    rw [Finding.isMendable_of_mem_when rfl hmem] at hkind
    cases hkind

/-- What is found about a step is mended in view of the same steps as it is found. -/
theorem exists_fix_of_mem_step {front back : List (Place × Step α)} {e : Place × Step α}
    (hsplit : s.located = front ++ e :: back)
    (hd : d ∈ e.2.defects refs (Step.names front) e.1) (hkind : d.kind.isMendable = true)
    (hread : ¬ IsUnreadClaim s.located d) : ∃ f ∈ s.mended.2, f.IsFor d := by
  obtain ⟨place, step⟩ := e
  have hmem : (place, step) ∈ s.located := List.mem_iff_append.mpr ⟨_, _, hsplit⟩
  have hclaim : d ∈ step.claimDefects (Step.names front) place := by
    rcases List.mem_append.mp hd with hd | hd
    · exact hd
    · rw [Step.isMendable_of_mem_otherDefects hd] at hkind
      cases hkind
  obtain ⟨hkinds, hpath, hsome⟩ := Step.mem_claimDefects hclaim
  cases step with
  | create id color shape =>
      obtain ⟨f, hf, hfix⟩ :=
        Mending.exists_fix_of_mem_claimDefects (Mending.names_subset_taken refs front) hclaim
      refine ⟨f, ?_, hfix⟩
      rw [fixes_mended, hsplit, Action.handOn_append_cons]
      exact List.mem_append_right _ (Mending.fixes_subset_handOn _ back hf)
  | unread u => exact absurd ⟨hkinds, place, u, hmem, hsome, hpath⟩ hread
  | reveal | hide | fadeIn | fadeOut | highlight | pulse | animatePoint | fold | wait =>
      cases hsome

/-! ## What remains -/

variable [FiniteOrder α]

/-- A defect of a review is fixed unless it cannot be mended or could not be read. -/
theorem isFixed_mended_iff {standards : Standards α} {m : Model α}
    (hd : d ∈ (s.review standards m).defects) :
    isFixed s.mended.2 d = true ↔
      ¬ (d.kind.isMendable = false ∨ IsUnreadClaim s.located d) := by
  constructor
  · rintro hfixed (hkind | hunread)
    · rw [s.isFixed_mended_eq_false hkind] at hfixed
      cases hfixed
    · obtain ⟨f, hf, hfix⟩ := isFixed_iff.mp hfixed
      exact not_isFor_of_isUnreadClaim hunread f hf hfix
  · intro hmendable
    obtain ⟨hkind, hread⟩ := not_or.mp hmendable
    rw [Bool.not_eq_false] at hkind
    rw [s.defects_review] at hd
    apply isFixed_iff.mpr
    rcases mem_scan.mp hd with ⟨i, scene, hscene, hd⟩ | ⟨front, e, back, hsplit, hd⟩
    · exact exists_fix_of_mem_openingDefects hscene hd hkind
    · exact exists_fix_of_mem_step hsplit hd hkind hread

/--
A repair of what a review finds leaves, in their order, the defects of the kinds that
cannot be mended and those of names that are claimed by what could not be read.  For
every other defect a fix of its kind was made at its path.
-/
theorem remaining_repair_review {standards : Standards α} {m : Model α} {s : Script α}
    (h : ∃ d ∈ (s.review standards m).defects, d.kind.isMendable = true) :
    (s.repair (s.review standards m).defects).remaining =
        (s.review standards m).defects.filter
          (fun d => d.kind.isMendable = false ∨ IsUnreadClaim s.located d) ∧
    ∀ d ∈ (s.review standards m).defects,
      d ∉ (s.repair (s.review standards m).defects).remaining →
        ∃ f ∈ (s.repair (s.review standards m).defects).fixes,
          f.kind = d.kind ∧ f.path = d.path := by
  have hany : (s.review standards m).defects.any (fun d => d.kind.isMendable) = true :=
    List.any_eq_true.mpr h
  have hrepair : (s.repair (s.review standards m).defects).remaining =
      (s.review standards m).defects.filter (fun d => !isFixed s.mended.2 d) ∧
      (s.repair (s.review standards m).defects).fixes = s.mended.2 := by
    rw [repair, if_pos hany]
    exact ⟨rfl, rfl⟩
  rw [hrepair.1, hrepair.2]
  constructor
  · refine List.filter_congr fun d hd => ?_
    rw [Bool.eq_iff_iff, Bool.not_eq_true', ← Bool.not_eq_true, isFixed_mended_iff hd,
      not_not, decide_eq_true_iff]
  · intro d hd hdropped
    apply isFixed_iff.mp
    cases hfixed : isFixed s.mended.2 d with
    | true => rfl
    | false =>
        refine absurd (List.mem_filter.mpr ⟨hd, ?_⟩) hdropped
        rw [hfixed]
        rfl

theorem remaining_repair_review_tangled :
    (∃ d ∈ (tangledScript.review Standards.usual plainCube).defects,
        d.kind.isMendable = true) ∧
      (tangledScript.repair
        (tangledScript.review Standards.usual plainCube).defects).remaining =
        (tangledScript.review Standards.usual plainCube).defects.filter
          (fun d => d.kind.isMendable = false ∨ IsUnreadClaim tangledScript.located d) := by
  have hmendable : ∃ d ∈ (tangledScript.review Standards.usual plainCube).defects,
      d.kind.isMendable = true := by
    decide +kernel
  exact ⟨hmendable, (remaining_repair_review hmendable).1⟩

end Script

end Storyboard
