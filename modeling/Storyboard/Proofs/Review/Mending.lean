import Storyboard.Proofs.Review.Elevations
import Storyboard.Proofs.Review.FreeNames

/-!
# Mending one step

A mending goes through the steps of a script and takes the name of every step that
claims one.  Beside it run two reviews, of the script as it was and as it is mended.
All names claimed in the first are claimed in the second, and up to blank ones the
names taken are those claimed in the second.  Hence a name that is free for the
mending is new to the review of the mended script, and a target that the first
review finds the second finds as well.
-/

namespace Storyboard

variable {α : Type}

/-! ## What a mending does to a step -/

theorem Shape.isBlank_madeUpName (shape : Shape α) : Text.isBlank shape.madeUpName = false := by
  cases shape <;> simp [madeUpName, Text.isBlank, Text.isBlankChar]

/-- A step whose claim stands: it is new or cannot be read. -/
def Mending.Keeps (m : Mending α) (s : Step α) (id : String) : Prop :=
  (∃ u, s = .unread u) ∨ Text.isBlank id = false ∧ id ∉ m.taken

theorem Mending.step_create_some (m : Mending α) (place : Place) (id : String)
    (color : Option String) (shape : Shape α) :
    m.step place (.create (some id) color shape) =
      if Text.isBlank id then
        (m.give .missingId (place.field "id") (.text id) (freeName m.taken shape.madeUpName),
          .create (some (freeName m.taken shape.madeUpName)) color shape)
      else if m.taken.contains id then
        (m.give .duplicateId (place.field "id") (.text id) (freeName m.taken id),
          .create (some (freeName m.taken id)) color shape)
      else (m.take id, .create (some id) color shape) := rfl

/--
A mending takes the name that a step claims, or gives it one that is new where the
step claims none or one that cannot stand, or lets the step be.
-/
theorem Mending.step_cases (m : Mending α) (place : Place) (s : Step α) :
    (∃ id verb, s.claim? = some (some id, verb) ∧ m.Keeps s id ∧
      m.step place s = (m.take id, s)) ∨
    (∃ name verb, (s.rename name).claim? = some (some name, verb) ∧
      (∀ id verb', s.claim? = some (some id, verb') → Text.isBlank id = false →
        id ∈ m.taken) ∧
      Text.isBlank name = false ∧ name ∉ m.taken ∧
      (m.step place s).1.taken = m.taken ++ [name] ∧
      (m.step place s).2 = s.rename name) ∨
    (s.claim? = none ∨ (∃ u verb, s = .unread u ∧ s.claim? = some (none, verb))) ∧
      m.step place s = (m, s) := by
  cases s with
  | create id? color shape =>
      cases id? with
      | none =>
          refine Or.inr (Or.inl ⟨freeName m.taken shape.madeUpName, shape.verb, rfl, ?_,
            isBlank_freeName shape.isBlank_madeUpName, freeName_not_mem _ _, rfl, rfl⟩)
          intro id verb hclaim
          cases hclaim
      | some id =>
          rw [step_create_some]
          split_ifs with hblank htaken
          · refine Or.inr (Or.inl ⟨freeName m.taken shape.madeUpName, shape.verb, rfl, ?_,
              isBlank_freeName shape.isBlank_madeUpName, freeName_not_mem _ _, rfl, rfl⟩)
            intro other verb hclaim hother
            cases hclaim
            rw [hblank] at hother
            cases hother
          · rw [Bool.not_eq_true] at hblank
            refine Or.inr (Or.inl ⟨freeName m.taken id, shape.verb, rfl, ?_,
              isBlank_freeName hblank, freeName_not_mem _ _, rfl, rfl⟩)
            intro other verb hclaim _
            cases hclaim
            exact List.contains_iff_mem.mp htaken
          · rw [Bool.not_eq_true] at hblank
            rw [List.contains_iff_mem] at htaken
            exact Or.inl ⟨id, shape.verb, rfl, Or.inr ⟨hblank, htaken⟩, rfl⟩
  | unread u =>
      rcases hclaim : (Step.unread u : Step α).claim? with _ | ⟨_ | id, verb⟩
      · refine Or.inr (Or.inr ⟨Or.inl rfl, ?_⟩)
        simp only [step, hclaim]
      · refine Or.inr (Or.inr ⟨Or.inr ⟨u, verb, rfl, rfl⟩, ?_⟩)
        simp only [step, hclaim]
      · refine Or.inl ⟨id, verb, rfl, Or.inl ⟨u, rfl⟩, ?_⟩
        simp only [step, hclaim]
  | reveal | hide | fadeIn | fadeOut | highlight | pulse | animatePoint | fold | wait =>
      exact Or.inr (Or.inr ⟨Or.inl rfl, rfl⟩)

/-! ## Two reviews beside a mending -/

/-- The names taken by a mending and the names claimed in the reviews before and after it. -/
structure Mending.InStep (m : Mending α) (created created' : List String) : Prop where
  /-- What was claimed before is claimed after. -/
  kept : created ⊆ created'
  /-- What is taken is claimed, unless it is blank. -/
  claimed_of_taken : ∀ id ∈ m.taken, Text.isBlank id = false → id ∈ created'
  /-- What is claimed is taken. -/
  taken_of_claimed : created' ⊆ m.taken

namespace Mending.InStep

variable {m : Mending α} {created created' : List String}

theorem empty : (⟨[], []⟩ : Mending α).InStep [] [] :=
  ⟨List.Subset.refl _, fun _ h => absurd h List.not_mem_nil, List.Subset.refl _⟩

/-- Taking the name that a step claims leaves a mending in step with the review of that step. -/
theorem take {m' : Mending α} {claimed : List String} {s : Step α} {name : String}
    {verb : Verb} (h : m.InStep created created') (hclaim : s.claim? = some (some name, verb))
    (htaken : m'.taken = m.taken ++ [name]) (hkept : claimed ⊆ s.claimed created') :
    m'.InStep claimed (s.claimed created') where
  kept := hkept
  claimed_of_taken := by
    intro other hmem hblank
    rw [Step.mem_claimed]
    rw [htaken] at hmem
    rcases List.mem_append.mp hmem with hmem | hmem
    · exact Or.inl (h.claimed_of_taken other hmem hblank)
    · rw [List.mem_singleton.mp hmem] at hblank ⊢
      exact Or.inr ⟨verb, hclaim, hblank⟩
  taken_of_claimed := by
    intro other hmem
    rw [htaken]
    refine List.mem_append.mpr ?_
    rcases Step.mem_claimed.mp hmem with hmem | ⟨verb', hclaim', -⟩
    · exact Or.inl (h.taken_of_claimed hmem)
    · rw [hclaim] at hclaim'
      cases hclaim'
      exact Or.inr List.mem_cons_self

/-- A step and its mended form leave a mending and its reviews in step. -/
theorem step (h : m.InStep created created') (place : Place) (s : Step α) :
    (m.step place s).1.InStep (s.claimed created)
      ((m.step place s).2.claimed created') := by
  rcases m.step_cases place s with ⟨id, verb, hclaim, -, hstep⟩ |
    ⟨name, verb, hclaim, hold, hblank, hnew, htaken, hs⟩ | ⟨hclaim, hstep⟩
  · -- both reviews claim the name that is taken
    rw [hstep]
    refine h.take hclaim rfl fun other hmem => ?_
    rw [Step.mem_claimed] at hmem ⊢
    exact hmem.imp_left fun hmem => h.kept hmem
  · -- the old name is taken already, only the review of the mended step claims the new one
    rw [hs]
    refine h.take hclaim htaken fun other hmem => ?_
    rw [Step.mem_claimed] at hmem ⊢
    rcases hmem with hmem | ⟨verb', hclaim', hblank'⟩
    · exact Or.inl (h.kept hmem)
    · exact Or.inl (h.claimed_of_taken other (hold other verb' hclaim' hblank') hblank')
  · -- neither review claims a name
    have hnone : ∀ names : List String, s.claimed names = names := by
      intro names
      rcases hclaim with hclaim | ⟨u, verb, -, hclaim⟩ <;> simp [Step.claimed, hclaim]
    rw [hstep, hnone, hnone]
    exact h

variable [Scalar α] [NumberText α]

/--
A defect of a mended step is one that the step had before and that cannot be mended,
or it is one of the name that is claimed by what could not be read.
-/
theorem mem_defects (h : m.InStep created created') {refs : References} {place : Place}
    {s : Step α} {d : Finding Defect}
    (hd : d ∈ (m.step place s).2.defects refs created' place) :
    d.kind.isMendable = false ∧ d ∈ s.defects refs created place ∨
      (d.kind = .missingId ∨ d.kind = .duplicateId) ∧ d.path = place.field "id" ∧
        ∃ u, (m.step place s).2 = .unread u ∧ (Step.unread u : Step α).claim?.isSome := by
  have hother : ∀ {d : Finding Defect}, d ∈ s.otherDefects refs created' place →
      d.kind.isMendable = false ∧ d ∈ s.defects refs created place := fun hd =>
    ⟨Step.isMendable_of_mem_otherDefects hd,
      List.mem_append_right _ (Step.otherDefects_mono h.kept hd)⟩
  rcases m.step_cases place s with ⟨id, verb, hclaim, hkeeps, hstep⟩ |
    ⟨name, verb, hclaim, -, hblank, hnew, -, hs⟩ | ⟨hclaim, hstep⟩
  · rw [hstep] at hd ⊢
    rcases List.mem_append.mp hd with hd | hd
    · rcases hkeeps with ⟨u, rfl⟩ | ⟨hblank, hnew⟩
      · obtain ⟨hkind, hpath, hsome⟩ := Step.mem_claimDefects hd
        exact Or.inr ⟨hkind, hpath, u, rfl, hsome⟩
      · have hfree : id ∉ created' := fun hmem => hnew (h.taken_of_claimed hmem)
        rw [Step.claimDefects_eq_nil hclaim hblank hfree] at hd
        exact absurd hd List.not_mem_nil
    · exact Or.inl (hother hd)
  · rw [hs] at hd
    rcases List.mem_append.mp hd with hd | hd
    · have hfree : name ∉ created' := fun hmem => hnew (h.taken_of_claimed hmem)
      rw [Step.claimDefects_eq_nil hclaim hblank hfree] at hd
      exact absurd hd List.not_mem_nil
    · rw [Step.otherDefects_rename] at hd
      exact Or.inl (hother hd)
  · rw [hstep] at hd ⊢
    rcases List.mem_append.mp hd with hd | hd
    · rcases hclaim with hclaim | ⟨u, verb, rfl, hclaim⟩
      · rw [Step.claimDefects_of_claim?_eq_none hclaim] at hd
        exact absurd hd List.not_mem_nil
      · obtain ⟨hkind, hpath, hsome⟩ := Step.mem_claimDefects hd
        exact Or.inr ⟨hkind, hpath, u, rfl, hsome⟩
    · exact Or.inl (hother hd)

end Mending.InStep

end Storyboard
