import Storyboard.Proofs.Timeline.Curves
import Storyboard.Proofs.Timeline.Sampling

/-!
# Sampling by a scan

Of a track whose keyframes are in order, the value at a time is what one gets by
looking through all of the keyframes: from the back for the last one that is due,
from the front for the first one that lies ahead.  Between two numbers the span
that the value is eased over has a length, so that it never takes the next value
in one step.

At the time of a keyframe the last keyframe of that time is the last one that is
due, and the value is that of this keyframe.  Between two numbers this needs a
difference that is finite: a way whose length overflows does not start anywhere.
-/

namespace Storyboard

namespace Keyframe

section Scan

variable {α : Type} [Scalar α]

/-- The last keyframe whose time has come. -/
def lastDue? (keys : List (Keyframe α)) (t : α) : Option (Keyframe α) :=
  keys.reverse.find? fun k => k.time ≤ t

/-- The first keyframe whose time is still to come. -/
def firstAhead? (keys : List (Keyframe α)) (t : α) : Option (Keyframe α) :=
  keys.find? fun k => t < k.time

/-- The last keyframe of a time. -/
def lastAt? (keys : List (Keyframe α)) (t : α) : Option (Keyframe α) :=
  keys.reverse.find? fun k => k.time ≤ t ∧ t ≤ k.time

/-- The value on the way to the next keyframe: numbers are eased, all else holds. -/
def tween (prev next : Keyframe α) (t : α) : KeyValue α :=
  match prev.value, next.value with
  | .number a, .number b =>
    let easing := (next.easing.or prev.easing).getD .linear
    .number (Scalar.interpolate a b (easing.apply ((t - prev.time) / (next.time - prev.time))))
  | _, _ => prev.value

/-- What a keyframe shows at its own time: its value, and between two numbers one that is
not less and not more, unless their difference is not finite. -/
def ShowsItself (last : Keyframe α) (next? : Option (Keyframe α)) (value : KeyValue α) : Prop :=
  match last.value, next?.map Keyframe.value with
  | .number a, some (.number b) => ∃ x, value = .number x ∧
      if Scalar.isFinite (b - a) then x ≤ a ∧ a ≤ x else Scalar.isUndefined x = true
  | own, _ => value = own

/-- The value that a keyframe passes on to what comes next, if anything does. -/
def onward (prev : Keyframe α) (next? : Option (Keyframe α)) (t : α) : KeyValue α :=
  match next? with
  | none => prev.value
  | some next => prev.tween next t

variable {keys : List (Keyframe α)} {t : α}

theorem time_le_of_lastDue? {prev : Keyframe α} (h : lastDue? keys t = some prev) :
    prev.time ≤ t := by
  simpa using List.find?_some h

theorem lt_time_of_firstAhead? {next : Keyframe α} (h : firstAhead? keys t = some next) :
    t < next.time := by
  simpa using List.find?_some h

theorem time_of_lastAt? {last : Keyframe α} (h : lastAt? keys t = some last) :
    last.time ≤ t ∧ t ≤ last.time := by
  simpa using List.find?_some h

theorem lastDue?_append {due ahead : List (Keyframe α)} (hfront : ∀ k ∈ due, k.time ≤ t)
    (hback : ∀ k ∈ ahead, ¬ k.time ≤ t) : lastDue? (due ++ ahead) t = due.getLast? := by
  have hnone : ahead.reverse.find? (fun k => decide (k.time ≤ t)) = none := by
    rw [List.find?_eq_none]
    intro k hk
    simpa using hback k (List.mem_reverse.mp hk)
  have hhead : due.reverse.find? (fun k => decide (k.time ≤ t)) = due.getLast? := by
    rw [← List.head?_reverse]
    cases hdue : due.reverse with
    | nil => rfl
    | cons last front =>
        have hlast : last ∈ due := List.mem_reverse.mp (hdue ▸ List.mem_cons_self)
        rw [List.find?_cons_of_pos (by simpa using hfront last hlast), List.head?_cons]
  rw [lastDue?, List.reverse_append, List.find?_append, hnone, Option.none_or, hhead]

end Scan

section Order

variable {α : Type} [Scalar α] [LawfulScalar α] {keys : List (Keyframe α)} {t : α}

open LawfulScalar

/-- Keyframes in order are those that are due, followed by those that are not. -/
theorem exists_due_append (hkeys : keys.Pairwise fun a b => a.time ≤ b.time) (t : α) :
    ∃ due ahead, keys = due ++ ahead ∧ (∀ k ∈ due, k.time ≤ t) ∧
      ∀ k ∈ ahead, ¬ k.time ≤ t := by
  induction keys with
  | nil => exact ⟨[], [], rfl, by simp, by simp⟩
  | cons first rest ih =>
      obtain ⟨hfirst, hrest⟩ := List.pairwise_cons.mp hkeys
      by_cases hdue : first.time ≤ t
      · obtain ⟨due, ahead, rfl, hfront, hback⟩ := ih hrest
        exact ⟨first :: due, ahead, rfl, List.forall_mem_cons.mpr ⟨hdue, hfront⟩, hback⟩
      · have hlater : ∀ k ∈ rest, ¬ k.time ≤ t := fun k hk hle =>
          hdue (le_trans (hfirst k hk) hle)
        exact ⟨[], first :: rest, rfl, by simp, List.forall_mem_cons.mpr ⟨hdue, hlater⟩⟩

theorem firstAhead?_append {due ahead : List (Keyframe α)}
    (hkeys : (due ++ ahead).Pairwise fun a b => a.time ≤ b.time) (hdue : due ≠ [])
    (hfront : ∀ k ∈ due, k.time ≤ t) (hback : ∀ k ∈ ahead, ¬ k.time ≤ t) :
    firstAhead? (due ++ ahead) t = ahead.head? := by
  obtain ⟨prev, hprev⟩ := List.exists_mem_of_ne_nil due hdue
  have hnone : due.find? (fun k => decide (t < k.time)) = none := by
    rw [List.find?_eq_none]
    intro k hk
    simpa using Scalar.not_lt_of_le (hfront k hk)
  rw [firstAhead?, List.find?_append, hnone, Option.none_or]
  cases ahead with
  | nil => rfl
  | cons next rest =>
      have hle : prev.time ≤ next.time :=
        (List.pairwise_append.mp hkeys).2.2 prev hprev next List.mem_cons_self
      have hnot : ¬ next.time ≤ t := hback next List.mem_cons_self
      have hdefined : t ≤ next.time ∨ next.time ≤ t :=
        le_total (right_defined (hfront prev hprev)) (right_defined hle)
      have hlt : t < next.time := lt_iff.mpr ⟨hdefined.resolve_right hnot, hnot⟩
      rw [List.find?_cons_of_pos (by simpa using hlt), List.head?_cons]

end Order

section Tween

variable {α : Type} [Scalar α] [TweenScalar α] {keys : List (Keyframe α)} {t : α}

open LawfulScalar TweenScalar

theorem between_eq_tween {prev next : Keyframe α} (h : prev.time < next.time) (t : α) :
    prev.between next t = prev.tween next t := by
  have hspan : ¬ next.time - prev.time ≤ 0 := not_sub_le_zero h
  rw [between, tween]
  rcases prev.value with _ | _ | _ | _ <;> rcases next.value with _ | _ | _ | _ <;>
    first | rfl | simp only [if_neg hspan]

/-- Halving finds what a look through all keyframes finds. -/
theorem valueAt?_eq_scan (hkeys : keys.Pairwise fun a b => a.time ≤ b.time) (t : α) :
    valueAt? keys.toArray t =
      (lastDue? keys t).map fun prev => prev.onward (firstAhead? keys t) t := by
  obtain ⟨due, ahead, rfl, hfront, hback⟩ := exists_due_append hkeys t
  rw [valueAt?_append hfront hback, lastDue?_append hfront hback]
  cases hprev : due.getLast? with
  | none => rfl
  | some prev =>
      have hmem : prev ∈ due := List.mem_of_getLast? hprev
      have hahead := firstAhead?_append hkeys (List.ne_nil_of_mem hmem) hfront hback
      rw [hahead]
      cases hnext : ahead.head? with
      | none => rfl
      | some next =>
          rw [hnext] at hahead
          have hspan : prev.time < next.time :=
            Scalar.lt_of_le_of_lt (hfront prev hmem) (lt_time_of_firstAhead? hahead)
          exact congrArg some (between_eq_tween hspan t)

/-- The last keyframe of a time is the last one that is due. -/
theorem lastDue?_of_lastAt? {last : Keyframe α}
    (hkeys : keys.Pairwise fun a b => a.time ≤ b.time) (h : lastAt? keys t = some last) :
    lastDue? keys t = some last := by
  obtain ⟨hdue, hat⟩ := time_of_lastAt? h
  obtain ⟨-, before, after, hsplit, hbefore⟩ := List.find?_eq_some_iff_append.mp h
  refine List.find?_eq_some_iff_append.mpr ⟨decide_eq_true hdue, before, after, hsplit, ?_⟩
  intro k hk
  have hback : keys.reverse.Pairwise fun a b => b.time ≤ a.time := List.pairwise_reverse.mpr hkeys
  rw [hsplit] at hback
  have hlater : last.time ≤ k.time :=
    (List.pairwise_append.mp hback).2.2 k hk last List.mem_cons_self
  have hnot := hbefore k hk
  simp only [Bool.not_eq_true', decide_eq_false_iff_not, not_and] at hnot ⊢
  exact fun hle => hnot hle (le_trans hat hlater)

theorem showsItself_onward {last : Keyframe α} {next? : Option (Keyframe α)}
    (hdue : last.time ≤ t) (hat : t ≤ last.time)
    (hnext : ∀ next ∈ next?, t < next.time) :
    last.ShowsItself next? (last.onward next? t) := by
  obtain ⟨time, value, easing⟩ := last
  cases next? with
  | none => cases value <;> rfl
  | some next =>
      have hspan : time < next.time := Scalar.lt_of_le_of_lt hdue (hnext next rfl)
      obtain ⟨time', value', easing'⟩ := next
      cases value with
      | number a =>
          cases value' with
          | number b =>
              exact ⟨_, rfl, interpolate_of_isZero (isZero_apply_start _ hdue hat hspan)⟩
          | bool | color | null => rfl
      | bool | color | null => rfl

/-- A track in order is sampled as by a look through all of its keyframes, and at the
time of a keyframe the last one of that time shows itself. -/
theorem sample_scans (hkeys : keys.Pairwise fun a b => a.time ≤ b.time) (t : α) :
    (valueAt? keys.toArray t = none ↔ ∀ k ∈ keys, ¬ k.time ≤ t) ∧
      valueAt? keys.toArray t =
        (lastDue? keys t).map (fun prev => prev.onward (firstAhead? keys t) t) ∧
      ∀ last, lastAt? keys t = some last →
        ∃ value, valueAt? keys.toArray t = some value ∧
          last.ShowsItself (firstAhead? keys t) value := by
  have hscan := valueAt?_eq_scan hkeys t
  refine ⟨?_, hscan, ?_⟩
  · rw [hscan, Option.map_eq_none_iff, lastDue?, List.find?_eq_none]
    simp
  · intro last hlast
    have hdue := lastDue?_of_lastAt? hkeys hlast
    obtain ⟨hle, hat⟩ := time_of_lastAt? hlast
    rw [hdue, Option.map_some] at hscan
    exact ⟨_, hscan, showsItself_onward hle hat fun next hnext => lt_time_of_firstAhead? hnext⟩

end Tween

/-- Two keyframes of one time between others. -/
def doubled : List (Keyframe Float) :=
  [⟨0, .number 1, none⟩, ⟨1, .number 2, some .easeIn⟩, ⟨1, .number 3, none⟩,
    ⟨2, .number 5, some .easeOut⟩]

theorem sample_scans_doubled :
    doubled.Pairwise (fun a b => a.time ≤ b.time) ∧
      lastAt? doubled 1 = some ⟨1, .number 3, none⟩ ∧
      ∃ value, valueAt? doubled.toArray 1 = some value ∧
        ShowsItself ⟨1, .number 3, none⟩ (firstAhead? doubled 1) value := by
  have hkeys : doubled.Pairwise (fun a b => a.time ≤ b.time) := by decide +kernel
  have hlast : lastAt? doubled 1 = some ⟨1, .number 3, none⟩ := rfl
  exact ⟨hkeys, hlast, (sample_scans hkeys 1).2.2 _ hlast⟩

/-- Keyframes whose values are further apart than the largest number. -/
def torn : List (Keyframe Float) := [⟨0, .number (-1e308), none⟩, ⟨1, .number 1e308, none⟩]

/-- A keyframe does not always show its value at its own time. -/
theorem exists_keyframe_lost :
    torn.Pairwise (fun a b => a.time ≤ b.time) ∧
      lastAt? torn 0 = some ⟨0, .number (-1e308), none⟩ ∧
      ∃ x, valueAt? torn.toArray 0 = some (.number x) ∧ ¬ (x ≤ -1e308 ∧ -1e308 ≤ x) := by
  have hkeys : torn.Pairwise (fun a b => a.time ≤ b.time) := by decide +kernel
  have hlast : lastAt? torn 0 = some ⟨0, .number (-1e308), none⟩ := rfl
  have hnext : firstAhead? torn 0 = some ⟨1, .number 1e308, none⟩ := rfl
  refine ⟨hkeys, hlast,
    Scalar.interpolate (-1e308) 1e308 (Easing.linear.apply ((0 - 0) / (1 - 0))), ?_, ?_⟩
  · rw [valueAt?_eq_scan hkeys, lastDue?_of_lastAt? hkeys hlast, hnext]
    rfl
  · decide +kernel

end Keyframe

end Storyboard
