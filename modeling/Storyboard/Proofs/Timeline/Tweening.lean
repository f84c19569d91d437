import Storyboard.Proofs.Timeline.Gathering
import Storyboard.Proofs.Timeline.Scanning

/-!
# Tracks of numbers

With exact numbers the value of a track of numbers lies between the keyframes around
it.  It starts at the earlier one, and as long as the same two keyframes are around it
goes towards the later one and never turns back.
-/

namespace Storyboard

instance : Scalar ℚ where
  decideLt := fun _ _ => inferInstance
  decideLe := fun _ _ => inferInstance

/-- The rational numbers are exact. -/
instance : ExactScalar ℚ where
  literal_eq := fun _ _ _ => (Rat.cast_id _).symm

namespace Scalar

variable {α : Type} [ExactScalar α] {a b s t : α}

theorem interpolate_mono (h : s ≤ t) (hab : a ≤ b) : interpolate a b s ≤ interpolate a b t :=
  add_le_add_right (mul_le_mul_of_nonneg_left h (sub_nonneg.mpr hab)) a

theorem interpolate_anti (h : s ≤ t) (hba : b ≤ a) : interpolate a b t ≤ interpolate a b s :=
  add_le_add_right (mul_le_mul_of_nonpos_left h (sub_nonpos.mpr hba)) a

theorem interpolate_zero (a b : α) : interpolate a b 0 = a := by
  rw [interpolate, mul_zero, add_zero]

theorem interpolate_one (a b : α) : interpolate a b 1 = b := by
  rw [interpolate, mul_one, add_sub_cancel]

/-- A part of the way from one number to another ends between them. -/
theorem interpolate_mem_uIcc (h0 : 0 ≤ t) (h1 : t ≤ 1) : interpolate a b t ∈ Set.uIcc a b := by
  rcases le_total a b with hab | hba
  · rw [Set.uIcc_of_le hab]
    constructor
    · simpa only [interpolate_zero] using interpolate_mono h0 hab
    · simpa only [interpolate_one] using interpolate_mono h1 hab
  · rw [Set.uIcc_of_ge hba]
    constructor
    · simpa only [interpolate_one] using interpolate_anti h1 hba
    · simpa only [interpolate_zero] using interpolate_anti h0 hba

end Scalar

namespace Keyframe

variable {α : Type} [ExactScalar α] {prev next : Keyframe α} {a b s t : α}

/-- Which part of the way to the next keyframe has gone by. -/
def progress (prev next : Keyframe α) (t : α) : α :=
  ((next.easing.or prev.easing).getD .linear).apply ((t - prev.time) / (next.time - prev.time))

theorem tween_eq (ha : prev.value = .number a) (hb : next.value = .number b) (t : α) :
    prev.tween next t = .number (Scalar.interpolate a b (prev.progress next t)) := by
  simp only [tween, ha, hb, progress]

theorem progress_mono (h : prev.time ≤ next.time) (hst : s ≤ t) :
    prev.progress next s ≤ prev.progress next t :=
  Easing.apply_mono _
    (div_le_div_of_nonneg_right (sub_le_sub_right hst _) (sub_nonneg.mpr h))

theorem progress_start (prev next : Keyframe α) : prev.progress next prev.time = 0 := by
  rw [progress, sub_self, zero_div]
  exact Easing.apply_of_le_zero _ le_rfl

theorem progress_finish (h : prev.time < next.time) : prev.progress next next.time = 1 := by
  rw [progress, div_self (sub_pos.mpr h).ne']
  exact Easing.apply_of_one_le _ le_rfl

/-- A way from one number at one time to another at another, which does not leave what lies
between the two and never turns back. -/
structure IsWay (f : α → α) (u a w b : α) : Prop where
  start : f u = a
  finish : f w = b
  between : ∀ t, f t ∈ Set.uIcc a b
  rising : a ≤ b → Monotone f
  falling : b ≤ a → Antitone f

theorem isWay_interpolate (h : prev.time < next.time) (a b : α) :
    IsWay (fun t => Scalar.interpolate a b (prev.progress next t)) prev.time a next.time b where
  start := by rw [progress_start, Scalar.interpolate_zero]
  finish := by rw [progress_finish h, Scalar.interpolate_one]
  between := fun t =>
    Scalar.interpolate_mem_uIcc (Easing.apply_nonneg _ _) (Easing.apply_le_one _ _)
  rising := fun hab _ _ hst => Scalar.interpolate_mono (progress_mono h.le hst) hab
  falling := fun hba _ _ hst => Scalar.interpolate_anti (progress_mono h.le hst) hba

/-- The value of a track of numbers is on a way between the keyframes around it. -/
theorem exists_way {keys : List (Keyframe α)} (hkeys : InOrder keys)
    (hnumbers : ∀ k ∈ keys, ∃ a, k.value = .number a) (hprev : lastDue? keys t = some prev)
    (hnext : firstAhead? keys t = some next) :
    ∃ a b f, prev.value = .number a ∧ next.value = .number b ∧
      IsWay f prev.time a next.time b ∧
      ∀ t', lastDue? keys t' = some prev → firstAhead? keys t' = some next →
        valueAt? keys.toArray t' = some (.number (f t')) := by
  obtain ⟨a, ha⟩ := hnumbers prev (List.mem_reverse.mp (List.mem_of_find?_eq_some hprev))
  obtain ⟨b, hb⟩ := hnumbers next (List.mem_of_find?_eq_some hnext)
  have hspan : prev.time < next.time :=
    (time_le_of_lastDue? hprev).trans_lt (lt_time_of_firstAhead? hnext)
  refine ⟨a, b, _, ha, hb, isWay_interpolate hspan a b, ?_⟩
  intro t' hprev' hnext'
  rw [valueAt?_eq_scan hkeys, hprev', hnext', Option.map_some, onward, tween_eq ha hb]

/-- No curve and no track of numbers goes beyond its ends, nor ever turns back on its way. -/
theorem never_overshoots :
    (∀ (easing : Easing) (s t : α), s ≤ t →
      0 ≤ easing.apply s ∧ easing.apply s ≤ easing.apply t ∧ easing.apply t ≤ 1) ∧
    (∀ (easing : Easing) (t : α),
      (t ≤ 0 → easing.apply t = 0) ∧ (1 ≤ t → easing.apply t = 1)) ∧
    (∀ easing : Easing, easing = .ease ∨ easing = .easeInOut → ∀ x : α,
      easing.apply (1 - x) = 1 - easing.apply x) ∧
    ∀ keys : List (Keyframe α), InOrder keys → (∀ k ∈ keys, ∃ a, k.value = .number a) →
      ∀ t prev, lastDue? keys t = some prev →
        (firstAhead? keys t = none → valueAt? keys.toArray t = some prev.value) ∧
        ∀ next, firstAhead? keys t = some next →
          ∃ a b f, prev.value = .number a ∧ next.value = .number b ∧
            IsWay f prev.time a next.time b ∧
            ∀ t', lastDue? keys t' = some prev → firstAhead? keys t' = some next →
              valueAt? keys.toArray t' = some (.number (f t')) := by
  refine ⟨?_, ?_, ?_, ?_⟩
  · intro easing s t h
    exact ⟨Easing.apply_nonneg easing s, Easing.apply_mono easing h, Easing.apply_le_one easing t⟩
  · intro easing t
    exact ⟨Easing.apply_of_le_zero easing, Easing.apply_of_one_le easing⟩
  · intro easing h
    exact Easing.apply_one_sub h
  · intro keys hkeys hnumbers t prev hprev
    constructor
    · intro hnone
      rw [valueAt?_eq_scan hkeys, hprev, hnone, Option.map_some, onward]
    · intro next hnext
      exact exists_way hkeys hnumbers hprev hnext

/-- A track that rises and falls again. -/
def hill : List (Keyframe ℚ) :=
  [⟨0, .number 0, none⟩, ⟨2, .number 4, some .easeInOut⟩, ⟨3, .number 1, some .easeOut⟩]

theorem never_overshoots_hill :
    (1 / 4 : ℚ) ≤ 1 / 2 ∧
      (0 ≤ Easing.easeIn.apply (1 / 4 : ℚ) ∧
        Easing.easeIn.apply (1 / 4 : ℚ) ≤ Easing.easeIn.apply (1 / 2) ∧
        Easing.easeIn.apply (1 / 2 : ℚ) ≤ 1) ∧
      Easing.easeOut.apply (-1 : ℚ) = 0 ∧ Easing.easeOut.apply (2 : ℚ) = 1 ∧
      Easing.ease.apply (1 - 1 / 4 : ℚ) = 1 - Easing.ease.apply (1 / 4) ∧
      InOrder hill ∧ (∀ k ∈ hill, ∃ a, k.value = .number a) ∧
      lastDue? hill 1 = some ⟨0, .number 0, none⟩ ∧
      firstAhead? hill 1 = some ⟨2, .number 4, some .easeInOut⟩ ∧
      firstAhead? hill 3 = none ∧ valueAt? hill.toArray 3 = some (.number 1) ∧
      ∃ f, IsWay f 0 0 2 4 ∧ valueAt? hill.toArray 1 = some (.number (f 1)) := by
  obtain ⟨hrange, hends, hsymmetric, htracks⟩ := never_overshoots (α := ℚ)
  have hle : (1 / 4 : ℚ) ≤ 1 / 2 := by norm_num
  have hkeys : InOrder hill := by
    unfold InOrder
    decide +kernel
  have hnumbers : ∀ k ∈ hill, ∃ a, k.value = .number a := by simp [hill]
  have hprev : lastDue? hill 1 = some ⟨0, .number 0, none⟩ := by decide +kernel
  have hnext : firstAhead? hill 1 = some ⟨2, .number 4, some .easeInOut⟩ := by decide +kernel
  have hlast : lastDue? hill 3 = some ⟨3, .number 1, some .easeOut⟩ := by decide +kernel
  have hnone : firstAhead? hill 3 = none := by decide +kernel
  obtain ⟨a, b, f, ha, hb, hway, hvalue⟩ := (htracks hill hkeys hnumbers 1 _ hprev).2 _ hnext
  obtain ⟨rfl, rfl⟩ : 0 = a ∧ 4 = b := ⟨KeyValue.number.inj ha, KeyValue.number.inj hb⟩
  exact ⟨hle, hrange .easeIn _ _ hle, (hends .easeOut (-1)).1 (by norm_num),
    (hends .easeOut 2).2 (by norm_num), hsymmetric .ease (Or.inl rfl) _, hkeys, hnumbers, hprev,
    hnext, hnone, (htracks hill hkeys hnumbers 3 _ hlast).1 hnone, f, hway,
    hvalue 1 hprev hnext⟩

end Keyframe

end Storyboard
