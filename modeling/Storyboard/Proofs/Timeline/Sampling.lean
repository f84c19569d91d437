import Storyboard.Timeline.Frame

/-!
# Sampling a track

The place that halving finds is the one a look from left to right would find, so
long as the keyframes that are due come before those that are not.  The value of
a track is then decided by the last keyframe of its front and the first behind it.
-/

namespace Storyboard

section Bisection

variable {β : Type} {p : β → Bool} {xs ys : List β}

/-- Halving ends where the front of the array ends, wherever it starts around there. -/
theorem splitBetween_append
    (hfront : ∀ x ∈ xs, p x = true) (hback : ∀ y ∈ ys, p y = false)
    (low high : Nat) (h : high ≤ (xs ++ ys).toArray.size)
    (hlow : low ≤ xs.length) (hhigh : xs.length ≤ high) :
    splitBetween p (xs ++ ys).toArray low high h = xs.length := by
  induction hn : high - low using Nat.strongRecOn generalizing low high with
  | ind n ih =>
      rw [splitBetween]
      by_cases hlt : low < high
      · rw [dif_pos hlt]
        have hmiddle : (low + high) / 2 < (xs ++ ys).length := by
          simp only [List.size_toArray] at h
          omega
        by_cases hside : (low + high) / 2 < xs.length
        · have hp : p (xs ++ ys).toArray[(low + high) / 2] = true := by
            simp only [List.getElem_toArray, List.getElem_append_left hside]
            exact hfront _ (List.getElem_mem hside)
          rw [if_pos hp]
          exact ih _ (by omega) _ _ h (by omega) hhigh rfl
        · have hside' : xs.length ≤ (low + high) / 2 := Nat.le_of_not_lt hside
          have hp : p (xs ++ ys).toArray[(low + high) / 2] = false := by
            simp only [List.getElem_toArray, List.getElem_append_right hside']
            exact hback _ (List.getElem_mem _)
          rw [if_neg (Bool.eq_false_iff.mp hp)]
          exact ih _ (by omega) _ _ _ hlow hside' rfl
      · rw [dif_neg hlt]
        omega

/-- The neighbours of the place are the end of the front and the start of the rest. -/
theorem neighbours_append
    (hfront : ∀ x ∈ xs, p x = true) (hback : ∀ y ∈ ys, p y = false) :
    neighbours p (xs ++ ys).toArray = (xs.getLast?, ys.head?) := by
  have hsplit : splitPoint p (xs ++ ys).toArray = xs.length :=
    splitBetween_append hfront hback 0 _ (Nat.le_refl _) (Nat.zero_le _) (by simp)
  simp only [neighbours, hsplit, List.getElem?_toArray]
  congr 1
  · rcases List.eq_nil_or_concat xs with rfl | ⟨front, last, rfl⟩
    · simp
    · simp
  · simp [List.getElem?_append_right, List.head?_eq_getElem?]

section FirstItem

variable {a : Array β}

theorem splitBetween_bounds (low high : Nat) (h : high ≤ a.size) (hle : low ≤ high) :
    low ≤ splitBetween p a low high h ∧ splitBetween p a low high h ≤ high := by
  induction hn : high - low using Nat.strongRecOn generalizing low high with
  | ind n ih =>
      rw [splitBetween]
      by_cases hlt : low < high
      · rw [dif_pos hlt]
        have hmiddle : (low + high) / 2 < a.size := by omega
        by_cases hp : p a[(low + high) / 2] = true
        · rw [if_pos hp]
          have hback := ih _ (by omega) ((low + high) / 2 + 1) high h (by omega) rfl
          omega
        · rw [if_neg hp]
          have hfront := ih _ (by omega) low ((low + high) / 2) (by omega) (by omega) rfl
          omega
      · rw [dif_neg hlt]
        exact ⟨Nat.le_refl low, hle⟩

/-- Where the condition holds for the first item, the front is not empty. -/
theorem splitBetween_pos {high : Nat} (h : high ≤ a.size) (hpos : 0 < high) (hsize : 0 < a.size)
    (hfirst : p a[0] = true) : 0 < splitBetween p a 0 high h := by
  induction high using Nat.strongRecOn with
  | ind high ih =>
      rw [splitBetween, dif_pos hpos]
      have hmiddle : (0 + high) / 2 < a.size := by omega
      by_cases hp : p a[(0 + high) / 2] = true
      · rw [if_pos hp]
        have hback := (splitBetween_bounds (p := p) ((0 + high) / 2 + 1) high h (by omega)).1
        omega
      · -- the condition fails in the middle, so that the first item stands before it
        have hlater : 0 < (0 + high) / 2 := by
          apply Nat.pos_of_ne_zero
          intro hzero
          simp only [hzero] at hp
          exact hp hfirst
        rw [if_neg hp]
        exact ih _ (by omega) _ hlater

theorem exists_neighbours_fst (hsize : 0 < a.size) (hfirst : p a[0] = true) :
    ∃ item, (neighbours p a).1 = some item := by
  have hpos : 0 < splitPoint p a := splitBetween_pos (Nat.le_refl _) hsize hsize hfirst
  have hle : splitPoint p a ≤ a.size :=
    (splitBetween_bounds 0 a.size (Nat.le_refl _) (Nat.zero_le _)).2
  have hindex : splitPoint p a - 1 < a.size := by omega
  rw [neighbours, if_neg (Nat.ne_of_gt hpos)]
  exact ⟨_, Array.getElem?_eq_getElem hindex⟩

end FirstItem

end Bisection

namespace Keyframe

variable {α : Type} [Scalar α] {front rest : List (Keyframe α)} {t : α}

/-- Between two keyframes the value of a track is on the way from one to the other. -/
theorem valueAt?_append
    (hfront : ∀ k ∈ front, k.time ≤ t) (hrest : ∀ k ∈ rest, ¬ k.time ≤ t) :
    valueAt? (front ++ rest).toArray t =
      match front.getLast?, rest.head? with
      | none, _ => none
      | some prev, none => some prev.value
      | some prev, some next => some (prev.between next t) := by
  have hneighbours :
      neighbours (fun k : Keyframe α => decide (k.time ≤ t)) (front ++ rest).toArray =
        (front.getLast?, rest.head?) :=
    neighbours_append (by simpa using hfront) (by simpa using hrest)
  rw [valueAt?, hneighbours]
  rcases front.getLast? with _ | prev
  · rfl
  · rcases rest.head? with _ | next <;> rfl

/-- Once all keyframes are due, the last one holds. -/
theorem valueAt?_of_forall_le
    {keys : List (Keyframe α)} (hkeys : ∀ k ∈ keys, k.time ≤ t) :
    valueAt? keys.toArray t = keys.getLast?.map Keyframe.value := by
  have hnone : ∀ k ∈ ([] : List (Keyframe α)), ¬ k.time ≤ t := by simp
  have happend := valueAt?_append hkeys hnone
  rw [List.append_nil] at happend
  rw [happend]
  rcases keys.getLast? with _ | last <;> rfl

/-- Once the first keyframe is due, the track has a value. -/
theorem isSome_valueAt? {first : Keyframe α} (h : first.time ≤ t) :
    (valueAt? (first :: rest).toArray t).isSome = true := by
  have hsize : 0 < (first :: rest).toArray.size := Nat.succ_pos _
  obtain ⟨prev, hprev⟩ := exists_neighbours_fst (p := fun k : Keyframe α => decide (k.time ≤ t))
    hsize (decide_eq_true h)
  unfold valueAt?
  split
  next hnone =>
    rw [hnone] at hprev
    cases hprev
  next => rfl
  next => rfl

end Keyframe

end Storyboard
