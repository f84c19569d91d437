import Mathlib.Tactic.SplitIfs
import Storyboard.Review.Actions

/-!
# The defects of a step

The defects of a step are those of the name it claims, which can be mended, and
others, which cannot.  The others do not depend on that name, and the more names
have been claimed before, the fewer there are.
-/

namespace Storyboard

@[simp] theorem Finding.mem_when {condition : Bool} {kind : Defect} {path message : String}
    {d : Finding Defect} :
    d ∈ Finding.when condition kind path message ↔
      condition = true ∧ d = ⟨kind, path, message⟩ := by
  cases condition <;> simp [Finding.when]

theorem Finding.isMendable_of_mem_when {condition : Bool} {kind : Defect}
    {path message : String} {d : Finding Defect} (hkind : kind.isMendable = false)
    (h : d ∈ Finding.when condition kind path message) : d.kind.isMendable = false := by
  obtain ⟨-, rfl⟩ := mem_when.mp h
  exact hkind

theorem Finding.mem_when_of_imp {condition condition' : Bool} {kind : Defect}
    {path message : String} {d : Finding Defect} (himp : condition = true → condition' = true)
    (h : d ∈ Finding.when condition kind path message) :
    d ∈ Finding.when condition' kind path message := by
  obtain ⟨hcondition, rfl⟩ := mem_when.mp h
  exact mem_when.mpr ⟨himp hcondition, rfl⟩

variable {α : Type}

/-! ## Claims -/

namespace Step

theorem mem_claimed {created : List String} {s : Step α} {id : String} :
    id ∈ s.claimed created ↔
      id ∈ created ∨ ∃ verb, s.claim? = some (some id, verb) ∧ Text.isBlank id = false := by
  unfold claimed
  split
  next other verb hclaim =>
    have hnamed : (∃ verb', s.claim? = some (some id, verb') ∧ Text.isBlank id = false) ↔
        other = id ∧ Text.isBlank id = false := by
      rw [hclaim]
      simp
    rw [hnamed]
    split
    next hskip =>
      rw [Bool.or_eq_true, List.contains_iff_mem] at hskip
      refine ⟨Or.inl, ?_⟩
      rintro (h | ⟨rfl, hblank⟩)
      · exact h
      · rcases hskip with hskip | hskip
        · rw [hskip] at hblank
          cases hblank
        · exact hskip
    next htake =>
      rw [Bool.or_eq_true, not_or, Bool.not_eq_true] at htake
      rw [List.mem_append, List.mem_singleton]
      refine or_congr_right ⟨?_, fun h => h.1.symm⟩
      rintro rfl
      exact ⟨rfl, htake.1⟩
  next hnone =>
    refine ⟨Or.inl, ?_⟩
    rintro (h | ⟨verb, hclaim, -⟩)
    · exact h
    · exact absurd hclaim (hnone id verb)

theorem mem_claimDefects {created : List String} {place : Place} {s : Step α}
    {d : Finding Defect} (h : d ∈ s.claimDefects created place) :
    (d.kind = .missingId ∨ d.kind = .duplicateId) ∧ d.path = place.field "id" ∧
      s.claim?.isSome := by
  unfold claimDefects at h
  split at h
  next => exact absurd h List.not_mem_nil
  next hclaim =>
    rw [hclaim]
    split at h
    next =>
      obtain rfl := List.mem_singleton.mp h
      exact ⟨Or.inl rfl, rfl, rfl⟩
    next =>
      obtain ⟨-, rfl⟩ := Finding.mem_when.mp h
      exact ⟨Or.inr rfl, rfl, rfl⟩

theorem claimDefects_eq_nil {created : List String} {place : Place} {s : Step α}
    {id : String} {verb : Verb} (hclaim : s.claim? = some (some id, verb))
    (hblank : Text.isBlank id = false) (hnew : id ∉ created) :
    s.claimDefects created place = [] := by
  simp [claimDefects, hclaim, Option.filter, hblank, hnew, Finding.when]

theorem claimDefects_of_claim?_eq_none {created : List String} {place : Place} {s : Step α}
    (hclaim : s.claim? = none) : s.claimDefects created place = [] := by
  simp [claimDefects, hclaim]

end Step

/-! ## Other defects -/

theorem Unread.isMendable_defect (u : Unread) (place : Place) :
    (u.defect place).kind.isMendable = false := by
  unfold defect
  split
  next => rfl
  next => rfl
  next verb _ _ =>
    cases verb <;> dsimp only <;> split_ifs <;> try split
    all_goals rfl

namespace Step

theorem isMendable_of_mem_pointDefects {refs : References} {path id : String}
    {d : Finding Defect} (h : d ∈ pointDefects refs path id) : d.kind.isMendable = false :=
  Finding.isMendable_of_mem_when rfl h

theorem isMendable_of_mem_targetDefects {refs : References} {created : List String}
    {place : Place} {target : String} {d : Finding Defect}
    (h : d ∈ targetDefects refs created place target) : d.kind.isMendable = false :=
  Finding.isMendable_of_mem_when rfl h

/-- The more names have been claimed, the fewer targets are missing. -/
theorem targetDefects_mono {refs : References} {created created' : List String}
    (hcreated : created ⊆ created') {place : Place} {target : String} {d : Finding Defect}
    (h : d ∈ targetDefects refs created' place target) :
    d ∈ targetDefects refs created place target := by
  refine Finding.mem_when_of_imp (fun hmissing => ?_) h
  simp only [isTarget, Bool.not_eq_true', Bool.or_eq_false_iff, List.contains_eq_mem,
    decide_eq_false_iff_not] at hmissing ⊢
  exact ⟨hmissing.1, fun hmem => hmissing.2 (hcreated hmem)⟩

theorem isMendable_of_mem_pointsDefects {refs : References} {path : String}
    {ids : List String} {d : Finding Defect} (h : d ∈ pointsDefects refs path ids) :
    d.kind.isMendable = false := by
  obtain ⟨e, -, hd⟩ := List.mem_flatMap.mp h
  exact isMendable_of_mem_pointDefects hd

theorem isMendable_of_mem_shapeDefects {refs : References} {place : Place} {shape : Shape α}
    {d : Finding Defect} (h : d ∈ shapeDefects refs place shape) :
    d.kind.isMendable = false := by
  cases shape with
  | line a b style | path a b =>
      rcases List.mem_append.mp h with h | h
      · exact isMendable_of_mem_pointDefects h
      · exact isMendable_of_mem_pointDefects h
  | plane ids opacity | tetrahedron ids opacity =>
      rw [shapeDefects] at h
      split_ifs at h
      · obtain rfl := List.mem_singleton.mp h
        rfl
      · exact isMendable_of_mem_pointsDefects h

variable [Scalar α] [NumberText α]

theorem isMendable_of_mem_durationDefects {place : Place} {duration : Option α}
    {d : Finding Defect} (h : d ∈ durationDefects place duration) :
    d.kind.isMendable = false := by
  cases duration with
  | none => exact absurd h List.not_mem_nil
  | some x => exact Finding.isMendable_of_mem_when rfl h

theorem isMendable_of_mem_timesDefects {place : Place} {times : Option α}
    {d : Finding Defect} (h : d ∈ timesDefects place times) : d.kind.isMendable = false := by
  cases times with
  | none => exact absurd h List.not_mem_nil
  | some x => exact Finding.isMendable_of_mem_when rfl h

/-- No defect of a step can be mended but for those of the name it claims. -/
theorem isMendable_of_mem_otherDefects {refs : References} {created : List String}
    {place : Place} {s : Step α} {d : Finding Defect}
    (h : d ∈ s.otherDefects refs created place) : d.kind.isMendable = false := by
  cases s with
  | reveal target | hide target | highlight target _ =>
      exact isMendable_of_mem_targetDefects h
  | fadeIn target _ | fadeOut target _ =>
      rcases List.mem_append.mp h with h | h
      · exact isMendable_of_mem_targetDefects h
      · exact isMendable_of_mem_durationDefects h
  | pulse target _ times =>
      rcases List.mem_append.mp h with h | h
      · exact isMendable_of_mem_targetDefects h
      · exact isMendable_of_mem_timesDefects h
  | create _ _ shape => exact isMendable_of_mem_shapeDefects h
  | animatePoint target start finish duration =>
      rcases List.mem_append.mp h with h | h
      · rcases List.mem_append.mp h with h | h
        · exact Finding.isMendable_of_mem_when rfl h
        · exact Finding.isMendable_of_mem_when rfl h
      · exact isMendable_of_mem_durationDefects h
  | fold id _ _ duration =>
      rcases List.mem_append.mp h with h | h
      · exact Finding.isMendable_of_mem_when rfl h
      · exact isMendable_of_mem_durationDefects h
  | wait duration =>
      change d ∈ durationDefects place (some duration) at h
      exact isMendable_of_mem_durationDefects h
  | unread u =>
      obtain rfl := List.mem_singleton.mp h
      exact u.isMendable_defect place

/-- The other defects of a step do not depend on the name of what it creates. -/
theorem otherDefects_rename (refs : References) (created : List String) (place : Place)
    (id : String) (s : Step α) :
    (s.rename id).otherDefects refs created place = s.otherDefects refs created place := by
  cases s <;> rfl

theorem otherDefects_mono {refs : References} {created created' : List String}
    (hcreated : created ⊆ created') {place : Place} {s : Step α} {d : Finding Defect}
    (h : d ∈ s.otherDefects refs created' place) :
    d ∈ s.otherDefects refs created place := by
  cases s with
  | reveal target | hide target | highlight target _ => exact targetDefects_mono hcreated h
  | fadeIn target _ | fadeOut target _ | pulse target _ _ =>
      rcases List.mem_append.mp h with h | h
      · exact List.mem_append_left _ (targetDefects_mono hcreated h)
      · exact List.mem_append_right _ h
  | create | animatePoint | fold | wait | unread => exact h

end Step

end Storyboard
