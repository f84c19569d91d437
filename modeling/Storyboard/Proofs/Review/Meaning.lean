import Storyboard.Proofs.Review.Creators

/-!
# What references mean after a repair

A repair changes no reference, but it gives names.  Names are taken in document
order, those that are given along with those that stood in the script, so that a
made-up name can take away the very name by which an element further down is
referred to.  This is the only way for an element that alone has a name to lose it,
if the name is not blank and not claimed before by what could not be read.
-/

namespace Storyboard

namespace Script

variable {α : Type}

/-! ## Repair -/

section Repaired

variable [Scalar α] {s s' : Script α} {defects : List (Finding Defect)}

theorem fixes_repair (h : (s.repair defects).script = some s') :
    (s.repair defects).fixes = s.mended.2 := by
  unfold repair at h ⊢
  split at h
  next hany =>
    rw [if_pos hany]
  next => cases h

/-- A name is given where an element has it after the repair and had it not before. -/
theorem gave_iff (h : (s.repair defects).script = some s') {place : Place}
    (hplace : place ∈ s.located.map Prod.fst) {name : String} :
    (s.repair defects).Gave place name ↔
      place ∈ s'.creators name ∧ place ∉ s.creators name := by
  obtain ⟨rfl, -⟩ := repair_eq_some h
  rw [Outcome.Gave, fixes_repair h]
  exact exists_fix_iff hplace

/-- The only element that has a name keeps it exactly when the repair gives it no other. -/
theorem creators_eq_iff (h : (s.repair defects).script = some s') {place : Place}
    {name : String} (hname : s.creators name = [place]) :
    s'.creators name = [place] ↔ ¬ ∃ other, (s.repair defects).Gave place other := by
  have hmem : place ∈ s.creators name := by
    rw [hname]
    exact List.mem_cons_self
  obtain ⟨step, hstep, hcreated⟩ := mem_creators.mp hmem
  have hplace : place ∈ s.located.map Prod.fst := List.mem_map.mpr ⟨_, hstep, rfl⟩
  constructor
  · rintro hkept ⟨other, hgave⟩
    obtain ⟨hother, hnew⟩ := (gave_iff h hplace).mp hgave
    have hkept' : place ∈ s'.creators name := by
      rw [hkept]
      exact List.mem_cons_self
    obtain ⟨step', hstep', hcreated'⟩ := mem_creators.mp hkept'
    obtain ⟨step'', hstep'', hcreated''⟩ := mem_creators.mp hother
    rw [step_unique hstep' hstep'', hcreated''] at hcreated'
    rw [Option.some_inj.mp (Option.some_inj.mp hcreated')] at hnew
    exact hnew hmem
  · intro hnone
    have hs' := (repair_eq_some h).1
    obtain ⟨other, hother⟩ := (mem_located_mended hstep).2 _ hcreated
    rw [← hs'] at hother
    have hold : place ∈ s.creators other := by
      by_contra hnew
      exact hnone ⟨other, (gave_iff h hplace).mpr ⟨hother, hnew⟩⟩
    obtain ⟨step', hstep', hcreated'⟩ := mem_creators.mp hold
    rw [step_unique hstep' hstep, hcreated] at hcreated'
    rw [← Option.some_inj.mp (Option.some_inj.mp hcreated')] at hother
    rw [hs'] at hother ⊢
    exact creators_mended_eq hother

/-- Whatever is given a name comes before the only element that had it, and has it alone. -/
theorem creators_of_gave (h : (s.repair defects).script = some s') {place other : Place}
    {name : String} (hname : s.creators name = [place])
    (hother : other ∈ s.located.map Prod.fst) (hgave : (s.repair defects).Gave other name) :
    s'.creators name = [other] ∧ s.position other < s.position place := by
  obtain ⟨hmem', hnew⟩ := (gave_iff h hother).mp hgave
  have hne : other ≠ place := by
    rintro rfl
    rw [hname] at hnew
    exact hnew List.mem_cons_self
  obtain ⟨rfl, -⟩ := repair_eq_some h
  have halone := creators_mended_eq hmem'
  refine ⟨halone, ?_⟩
  rcases kept_or_claimed hname (isBlank_of_mem_creators_mended hmem') with hkept | hclaimed
  · rw [halone, List.mem_singleton] at hkept
    exact absurd hkept.symm hne
  · rcases hclaimed with ⟨first, u, hu, hclaim, hbefore⟩ | ⟨first, hfirst, hbefore⟩
    · -- the element that has the name now cannot stand behind what could not be read
      have hu' := (mem_located_mended hu).1 rfl
      by_contra hle
      refine not_claimed_of_position_lt hu' hmem' ?_ hclaim
      exact hbefore.trans_le (not_lt.mp hle)
    · rw [halone, List.mem_singleton] at hfirst
      rwa [hfirst] at hbefore

/-- When the only element that has a name is given another one. -/
theorem exists_gave_iff (h : (s.repair defects).script = some s') {place : Place}
    {name : String} (hname : s.creators name = [place]) :
    (∃ other, (s.repair defects).Gave place other) ↔
      Text.isBlank name = true ∨ s.ClaimedUnread name place ∨
      ∃ other ∈ s.located.map Prod.fst, (s.repair defects).Gave other name := by
  have hkeeps := creators_eq_iff h hname
  constructor
  · intro hrenamed
    by_cases hblank : Text.isBlank name = true
    · exact Or.inl hblank
    · rw [Bool.not_eq_true] at hblank
      rcases kept_or_claimed hname hblank with hkept | hclaimed | ⟨other, hother, hbefore⟩
      · rw [← (repair_eq_some h).1] at hkept
        have halone : s'.creators name = [place] := by
          rw [(repair_eq_some h).1] at hkept ⊢
          exact creators_mended_eq hkept
        exact absurd hrenamed (hkeeps.mp halone)
      · exact Or.inr (Or.inl hclaimed)
      · have hplace : other ∈ s.located.map Prod.fst := by
          obtain ⟨step, hstep, -⟩ := mem_creators.mp hother
          rw [← map_fst_located_mended]
          exact List.mem_map.mpr ⟨_, hstep, rfl⟩
        have hnew : other ∉ s.creators name := by
          rw [hname, List.mem_singleton]
          rintro rfl
          exact lt_irrefl _ hbefore
        rw [← (repair_eq_some h).1] at hother
        exact Or.inr (Or.inr ⟨other, hplace, (gave_iff h hplace).mpr ⟨hother, hnew⟩⟩)
  · intro hreason
    by_contra hkept
    have halone := hkeeps.mpr hkept
    have hmem : place ∈ s'.creators name := by
      rw [halone]
      exact List.mem_cons_self
    rw [(repair_eq_some h).1] at hmem
    rcases hreason with hblank | ⟨other, u, hu, hclaim, hbefore⟩ | ⟨other, hother, hgave⟩
    · rw [isBlank_of_mem_creators_mended hmem] at hblank
      cases hblank
    · exact not_claimed_of_position_lt ((mem_located_mended hu).1 rfl) hmem hbefore hclaim
    · obtain ⟨hother', hbefore⟩ := creators_of_gave h hname hother hgave
      rw [halone] at hother'
      rw [(List.cons.inj hother').1] at hbefore
      exact lt_irrefl _ hbefore

/-- A repair changes no reference, neither the target of a step nor what a camera looks at. -/
theorem references_repair (h : (s.repair defects).script = some s') :
    s'.targets = s.targets ∧ s'.lookAts = s.lookAts := by
  obtain ⟨rfl, -⟩ := repair_eq_some h
  constructor
  · rw [targets, located_mended, filterMap_target?_handOn]
    rfl
  · have hscenes : ∀ (names : List String) (m : Mending α) (i : Nat) (scenes : List (Scene α)),
        (mendScenes names m i scenes).map (fun scene => scene.camera.lookAt?) =
          scenes.map fun scene => scene.camera.lookAt? := by
      intro names m i scenes
      induction scenes generalizing names m i with
      | nil => rfl
      | cons scene rest ih =>
          rw [mendScenes, List.map_cons, List.map_cons, ih]
          exact congrArg (· :: _) (lookAt?_repaired _ scene.camera)
    rw [lookAts, scenes_mended, hscenes]
    rfl

end Repaired

/--
A repair changes no reference.  A name that belonged to one element alone belongs to
that element after the repair exactly when the repair gave the element no other name.
It does so only if the name is blank, or claimed before by what could not be read, or
was given to an element further up; then it belongs to that element alone.
-/
theorem creators_repair_iff [Scalar α] [NumberText α] {standards : Standards α} {m : Model α}
    {s s' : Script α} (h : (s.repair (s.review standards m).defects).script = some s') :
    (s'.targets = s.targets ∧ s'.lookAts = s.lookAts) ∧
    ∀ name place, s.creators name = [place] →
      (s'.creators name = [place] ↔
        ¬ ∃ other, (s.repair (s.review standards m).defects).Gave place other) ∧
      ((∃ other, (s.repair (s.review standards m).defects).Gave place other) ↔
        Text.isBlank name = true ∨ s.ClaimedUnread name place ∨
        ∃ other ∈ s.located.map Prod.fst,
          (s.repair (s.review standards m).defects).Gave other name) ∧
      ∀ other ∈ s.located.map Prod.fst,
        (s.repair (s.review standards m).defects).Gave other name →
        s'.creators name = [other] ∧ s.position other < s.position place := by
  refine ⟨references_repair h, ?_⟩
  intro name place hname
  refine ⟨creators_eq_iff h hname, exists_gave_iff h hname, ?_⟩
  intro other hother hgave
  exact creators_of_gave h hname hother hgave

/--
A script of one scene with a line that has no name, another line with the very name
that is made up for the first, and a highlight of that name.
-/
def highlightedScript : Script Float where
  title := ""
  scenes := [{
    id := "lines"
    narration := ""
    camera := Camera.standard
    actions :=
      [.step (.create none none (.line "A" "C" none)),
        .step (.create (some "line_A_C") none (.line "B" "D" none)),
        .step (.highlight "line_A_C" none)]
    measurements := none }]

/-- The place of an action in the only scene of a script. -/
def firstScenePlace (i : Nat) : Place := ⟨scenePath 0 ++ ".actions", [i]⟩

theorem isSome_repair_highlightedScript :
    (highlightedScript.repair
      (highlightedScript.review Standards.usual plainCube).defects).script.isSome = true := by
  decide +kernel

theorem creators_repair_iff_highlighted :
    ∃ s', (highlightedScript.repair
        (highlightedScript.review Standards.usual plainCube).defects).script = some s' ∧
      highlightedScript.creators "line_A_C" = [firstScenePlace 1] ∧
      (s'.creators "line_A_C" = [firstScenePlace 1] ↔
        ¬ ∃ other, (highlightedScript.repair (highlightedScript.review Standards.usual
          plainCube).defects).Gave (firstScenePlace 1) other) := by
  obtain ⟨s', hs'⟩ := Option.isSome_iff_exists.mp isSome_repair_highlightedScript
  have hname : highlightedScript.creators "line_A_C" = [firstScenePlace 1] := by
    decide +kernel
  exact ⟨s', hs', hname, ((creators_repair_iff hs').2 _ _ hname).1⟩

/-- After the repair what is highlighted is the line that had no name. -/
theorem exists_creators_repair_ne :
    ∃ s', (highlightedScript.repair
        (highlightedScript.review Standards.usual plainCube).defects).script = some s' ∧
      (firstScenePlace 2, "line_A_C") ∈ highlightedScript.targets ∧
      highlightedScript.creators "line_A_C" = [firstScenePlace 1] ∧
      highlightedScript.position (firstScenePlace 1) <
        highlightedScript.position (firstScenePlace 2) ∧
      s'.creators "line_A_C" = [firstScenePlace 0] ∧ firstScenePlace 0 ≠ firstScenePlace 1 := by
  obtain ⟨s', hs'⟩ := Option.isSome_iff_exists.mp isSome_repair_highlightedScript
  obtain ⟨rfl, -⟩ := repair_eq_some hs'
  refine ⟨_, hs', ?_, ?_, ?_, ?_, ?_⟩
  all_goals decide +kernel

end Script

end Storyboard
