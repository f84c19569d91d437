import Storyboard.Proofs.Review.Repair

/-!
# The names that a mending gives

Step by step a mending takes the names that are claimed.  Whatever creates an element
ends up with a name that was not taken before, either its own or one that is logged as
a fix.  Over a whole run no name is taken twice, and every fix gives a name that the
step at its place did not have.
-/

namespace Storyboard

variable {α : Type}

/-- The name that a step claims for a new element, if it gives one. -/
def Step.claimedName? (s : Step α) : Option String := s.claim?.bind Prod.fst

theorem Step.eq_create_of_createdId? {s : Step α} {id : Option String}
    (h : s.createdId? = some id) : ∃ color shape, s = .create id color shape := by
  cases s with
  | create id' color shape =>
      obtain rfl : id' = id := Option.some_inj.mp h
      exact ⟨color, shape, rfl⟩
  | reveal | hide | fadeIn | fadeOut | highlight | pulse | animatePoint | fold | wait
  | unread => cases h

theorem Step.claimedName?_of_createdId? {s : Step α} {name : String}
    (h : s.createdId? = some (some name)) : s.claimedName? = some name := by
  obtain ⟨color, shape, rfl⟩ := Step.eq_create_of_createdId? h
  rfl

/-- A name is claimed by a step that creates an element, or by what could not be read. -/
theorem Step.createdId?_or_unread {s : Step α} {name : String}
    (h : s.claimedName? = some name) :
    s.createdId? = some (some name) ∨ ∃ u, s = .unread u := by
  cases s with
  | create id color shape => exact Or.inl (congrArg some h)
  | unread u => exact Or.inr ⟨u, rfl⟩
  | reveal | hide | fadeIn | fadeOut | highlight | pulse | animatePoint | fold | wait => cases h

/-! ## One step -/

namespace Mending

/--
A creating step ends up with a name that was not taken, and takes it.  Either the name
is its own, or it is logged as a fix because the step had none that could stand.
-/
theorem step_create (m : Mending α) (place : Place) (id? color : Option String)
    (shape : Shape α) :
    ∃ name, (m.step place (.create id? color shape)).2 = .create (some name) color shape ∧
      name ∉ m.taken ∧ Text.isBlank name = false ∧
      (m.step place (.create id? color shape)).1.taken = m.taken ++ [name] ∧
      (id? = some name ∧ (m.step place (.create id? color shape)).1.fixes = m.fixes ∨
        id? ≠ some name ∧ (∀ id, id? = some id → Text.isBlank id = true ∨ id ∈ m.taken) ∧
        ∃ kind before, (m.step place (.create id? color shape)).1.fixes =
          m.fixes ++ [⟨kind, place.field "id", before, .text name⟩]) := by
  have hmadeUp : Text.isBlank (freeName m.taken shape.madeUpName) = false :=
    isBlank_freeName shape.isBlank_madeUpName
  cases id? with
  | none =>
      refine ⟨freeName m.taken shape.madeUpName, rfl, freeName_not_mem _ _, hmadeUp, rfl,
        Or.inr ⟨(Option.some_ne_none _).symm, ?_, _, _, rfl⟩⟩
      intro id h
      cases h
  | some id =>
      rw [step_create_some]
      by_cases hblank : Text.isBlank id = true
      · rw [if_pos hblank]
        have hne : id ≠ freeName m.taken shape.madeUpName := by
          intro heq
          rw [heq, hmadeUp] at hblank
          cases hblank
        refine ⟨_, rfl, freeName_not_mem _ _, hmadeUp, rfl,
          Or.inr ⟨fun h => hne (Option.some_inj.mp h), ?_, _, _, rfl⟩⟩
        rintro other ⟨⟩
        exact Or.inl hblank
      · rw [if_neg hblank]
        rw [Bool.not_eq_true] at hblank
        by_cases htaken : m.taken.contains id = true
        · rw [if_pos htaken]
          have hmem : id ∈ m.taken := List.contains_iff_mem.mp htaken
          have hne : id ≠ freeName m.taken id :=
            fun heq => freeName_not_mem m.taken id (heq ▸ hmem)
          refine ⟨_, rfl, freeName_not_mem _ _, isBlank_freeName hblank, rfl,
            Or.inr ⟨fun h => hne (Option.some_inj.mp h), ?_, _, _, rfl⟩⟩
          rintro other ⟨⟩
          exact Or.inr hmem
        · rw [if_neg htaken]
          rw [List.contains_iff_mem] at htaken
          exact ⟨id, rfl, htaken, hblank, rfl, Or.inl ⟨rfl, rfl⟩⟩

/-- A step that creates nothing stays as it is, and takes the name that it claims. -/
theorem step_of_createdId?_eq_none (m : Mending α) (place : Place) {s : Step α}
    (h : s.createdId? = none) :
    (m.step place s).2 = s ∧ (m.step place s).1.fixes = m.fixes ∧
      (m.step place s).1.taken = m.taken ++ s.claimedName?.toList := by
  cases s with
  | create => cases h
  | unread u =>
      rcases hclaim : (Step.unread u : Step α).claim? with _ | ⟨_ | id, verb⟩ <;>
        simp [step, Step.claimedName?, hclaim, take]
  | reveal | hide | fadeIn | fadeOut | highlight | pulse | animatePoint | fold | wait =>
      exact ⟨rfl, rfl, (List.append_nil _).symm⟩

theorem taken_step (m : Mending α) (place : Place) (s : Step α) :
    (m.step place s).1.taken = m.taken ++ (m.step place s).2.claimedName?.toList := by
  cases hcreated : s.createdId? with
  | none =>
      obtain ⟨hs, -, htaken⟩ := m.step_of_createdId?_eq_none place hcreated
      rw [htaken, hs]
  | some id =>
      obtain ⟨color, shape, rfl⟩ := Step.eq_create_of_createdId? hcreated
      obtain ⟨name, hs, -, -, htaken, -⟩ := m.step_create place id color shape
      rw [htaken, hs]
      rfl

/-- The name of an element after a step was not taken before it, and is not blank. -/
theorem new_of_createdId? {m : Mending α} {place : Place} {s : Step α} {name : String}
    (h : (m.step place s).2.createdId? = some (some name)) :
    name ∉ m.taken ∧ Text.isBlank name = false := by
  cases hcreated : s.createdId? with
  | none =>
      obtain ⟨hs, -, -⟩ := m.step_of_createdId?_eq_none place hcreated
      rw [hs, hcreated] at h
      cases h
  | some id =>
      obtain ⟨color, shape, rfl⟩ := Step.eq_create_of_createdId? hcreated
      obtain ⟨name', hs, hnew, hblank, -⟩ := m.step_create place id color shape
      rw [hs] at h
      obtain rfl : name' = name := Option.some_inj.mp (Option.some_inj.mp h)
      exact ⟨hnew, hblank⟩

theorem fixes_subset_step (m : Mending α) (place : Place) (s : Step α) :
    m.fixes ⊆ (m.step place s).1.fixes := by
  cases hcreated : s.createdId? with
  | none =>
      obtain ⟨-, hfixes, -⟩ := m.step_of_createdId?_eq_none place hcreated
      rw [hfixes]
      exact List.Subset.refl _
  | some id =>
      obtain ⟨color, shape, rfl⟩ := Step.eq_create_of_createdId? hcreated
      obtain ⟨name, -, -, -, -, ⟨-, hfixes⟩ | ⟨-, -, kind, before, hfixes⟩⟩ :=
        m.step_create place id color shape
      · rw [hfixes]
        exact List.Subset.refl _
      · rw [hfixes]
        exact List.subset_append_left _ _

/-- A fix is logged at a step exactly when the element has another name after it. -/
theorem mem_fixes_step {m : Mending α} {place : Place} {s : Step α} {f : Fix α}
    (h : f ∈ (m.step place s).1.fixes) :
    f ∈ m.fixes ∨ ∃ name, f.path = place.field "id" ∧ f.after = .text name ∧
      (m.step place s).2.createdId? = some (some name) ∧ s.createdId? ≠ some (some name) := by
  cases hcreated : s.createdId? with
  | none =>
      obtain ⟨-, hfixes, -⟩ := m.step_of_createdId?_eq_none place hcreated
      rw [hfixes] at h
      exact Or.inl h
  | some id =>
      obtain ⟨color, shape, rfl⟩ := Step.eq_create_of_createdId? hcreated
      obtain ⟨name, hs, -, -, -, ⟨-, hfixes⟩ | ⟨hne, -, kind, before, hfixes⟩⟩ :=
        m.step_create place id color shape
      · rw [hfixes] at h
        exact Or.inl h
      · rw [hfixes] at h
        rcases List.mem_append.mp h with h | h
        · exact Or.inl h
        · obtain rfl := List.mem_singleton.mp h
          rw [hs]
          exact Or.inr ⟨name, rfl, rfl, rfl, fun heq => hne (Option.some_inj.mp heq)⟩

theorem exists_fix_of_createdId? {m : Mending α} {place : Place} {s : Step α} {name : String}
    (h : (m.step place s).2.createdId? = some (some name))
    (hne : s.createdId? ≠ some (some name)) :
    ∃ f ∈ (m.step place s).1.fixes, f.path = place.field "id" ∧ f.after = .text name := by
  cases hcreated : s.createdId? with
  | none =>
      obtain ⟨hs, -, -⟩ := m.step_of_createdId?_eq_none place hcreated
      rw [hs, hcreated] at h
      cases h
  | some id =>
      obtain ⟨color, shape, rfl⟩ := Step.eq_create_of_createdId? hcreated
      obtain ⟨name', hs, -, -, -, ⟨hid, -⟩ | ⟨-, -, kind, before, hfixes⟩⟩ :=
        m.step_create place id color shape
      · rw [hs] at h
        obtain rfl : name' = name := Option.some_inj.mp (Option.some_inj.mp h)
        exact absurd (congrArg some hid) hne
      · rw [hs] at h
        obtain rfl : name' = name := Option.some_inj.mp (Option.some_inj.mp h)
        rw [hfixes]
        exact ⟨_, List.mem_append_right _ List.mem_cons_self, rfl, rfl⟩

end Mending

/-! ## All steps -/

namespace Action

/-- The step at a place is changed from the state that the steps before it hand on. -/
theorem handOn_append_cons {σ : Type} (f : σ → Place → Step α → σ × Step α) (state : σ)
    (front : List (Place × Step α)) (place : Place) (s : Step α)
    (back : List (Place × Step α)) :
    handOn f state (front ++ (place, s) :: back) =
      ((handOn f (f (handOn f state front).1 place s).1 back).1,
        (handOn f state front).2 ++ (place, (f (handOn f state front).1 place s).2) ::
          (handOn f (f (handOn f state front).1 place s).1 back).2) := by
  rw [handOn_append]
  rfl

theorem map_fst_handOn {σ : Type} (f : σ → Place → Step α → σ × Step α) (state : σ)
    (steps : List (Place × Step α)) :
    (handOn f state steps).2.map Prod.fst = steps.map Prod.fst := by
  induction steps generalizing state with
  | nil => rfl
  | cons e rest ih =>
      obtain ⟨place, s⟩ := e
      exact congrArg (place :: ·) (ih _)

end Action

namespace Mending

open Storyboard.Action

theorem taken_handOn (m : Mending α) (steps : List (Place × Step α)) :
    (handOn step m steps).1.taken =
      m.taken ++ (handOn step m steps).2.filterMap fun e => e.2.claimedName? := by
  induction steps generalizing m with
  | nil => exact (List.append_nil _).symm
  | cons e rest ih =>
      change (handOn step (m.step e.1 e.2).1 rest).1.taken = _
      rw [ih, taken_step, List.append_assoc]
      congr 1
      change _ = List.filterMap _ ((e.1, (m.step e.1 e.2).2) :: _)
      rw [List.filterMap_cons]
      cases (m.step e.1 e.2).2.claimedName? <;> rfl

theorem fixes_subset_handOn (m : Mending α) (steps : List (Place × Step α)) :
    m.fixes ⊆ (handOn step m steps).1.fixes := by
  induction steps generalizing m with
  | nil => exact List.Subset.refl _
  | cons e rest ih => exact List.Subset.trans (m.fixes_subset_step e.1 e.2) (ih _)

theorem mem_fixes_handOn {m : Mending α} {steps : List (Place × Step α)} {f : Fix α}
    (h : f ∈ (handOn step m steps).1.fixes) :
    f ∈ m.fixes ∨ ∃ place s s' name, (place, s) ∈ steps ∧
      (place, s') ∈ (handOn step m steps).2 ∧
      f.path = place.field "id" ∧ f.after = .text name ∧
      s'.createdId? = some (some name) ∧ s.createdId? ≠ some (some name) := by
  induction steps generalizing m with
  | nil => exact Or.inl h
  | cons e rest ih =>
      rcases ih h with h | ⟨place, s, s', name, hs, hs', hfix⟩
      · rcases mem_fixes_step h with h | ⟨name, hpath, hafter, hcreated, hne⟩
        · exact Or.inl h
        · exact Or.inr ⟨e.1, e.2, _, name, List.mem_cons_self, List.mem_cons_self,
            hpath, hafter, hcreated, hne⟩
      · exact Or.inr ⟨place, s, s', name, List.mem_cons_of_mem _ hs,
          List.mem_cons_of_mem _ hs', hfix⟩

/-- The names of elements are new to what is taken before, whatever is gone through. -/
theorem not_mem_taken_of_mem_handOn {m : Mending α} {steps : List (Place × Step α)}
    {e : Place × Step α} {name : String} (h : e ∈ (handOn step m steps).2)
    (hcreated : e.2.createdId? = some (some name)) : name ∉ m.taken := by
  induction steps generalizing m with
  | nil => exact absurd h List.not_mem_nil
  | cons first rest ih =>
      rcases List.mem_cons.mp h with rfl | h
      · exact (new_of_createdId? hcreated).1
      · intro hmem
        refine ih h ?_
        rw [taken_step]
        exact List.mem_append_left _ hmem

/-- No step before it claims the name that an element has after a mending. -/
theorem pairwise_handOn (m : Mending α) (steps : List (Place × Step α)) :
    (handOn step m steps).2.Pairwise fun e e' =>
      ∀ name, e'.2.createdId? = some (some name) → e.2.claimedName? ≠ some name := by
  induction steps generalizing m with
  | nil => exact List.Pairwise.nil
  | cons e rest ih =>
      refine List.pairwise_cons.mpr ⟨?_, ih _⟩
      intro e' he' name hcreated hclaimed
      apply not_mem_taken_of_mem_handOn he' hcreated
      rw [taken_step]
      exact List.mem_append_right _ (Option.mem_toList.mpr hclaimed)

end Mending

end Storyboard
