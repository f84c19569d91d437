import Storyboard.Proofs.Timeline.Cues

/-!
# The course of some cues

Cues followed one after the other: the stage that they leave, and the keyframes
that they write on the way.  On a channel that is handed on, the stage holds what
the last cue in order leaves, while the latest keyframe holds what is left at the
latest time.
-/

namespace Storyboard

open Track

section Order

variable {α : Type} [Scalar α]

theorem leavings_cons (c : Channel) (cue : Cue α) (rest : List (Cue α)) :
    leavings c (cue :: rest) = (cue.leaving? c).toList ++ leavings c rest := by
  cases h : cue.leaving? c <;> simp [leavings, h]

theorem mem_leavings {c : Channel} {cues : List (Cue α)} {mark : α × KeyValue α} :
    mark ∈ leavings c cues ↔ ∃ cue ∈ cues, cue.leaving? c = some mark := by
  simp [leavings]

theorem fits_of_mem_leavings {c : Channel} {cues : List (Cue α)}
    {mark : α × KeyValue α} (h : mark ∈ leavings c cues) : c.Fits mark.2 := by
  obtain ⟨cue, -, hcue⟩ := mem_leavings.mp h
  exact Cue.fits_of_leaving? hcue

/-- Highlights are not handed on. -/
theorem leavings_eq_nil {c : Channel} (hc : c.property = .highlight) (cues : List (Cue α)) :
    leavings c cues = [] := by
  rw [List.eq_nil_iff_forall_not_mem]
  intro mark hmark
  have hfits := fits_of_mem_leavings hmark
  simp [Channel.Fits, hc] at hfits

namespace Stage

theorem follow_cons (stage : Stage α) (cue : Cue α) (rest : List (Cue α)) :
    stage.follow (cue :: rest) =
      (((stage.after cue.effect).follow rest).1,
        cue.writes stage ++ ((stage.after cue.effect).follow rest).2) := rfl

/-- The stage that is left holds what was last left in order. -/
theorem value?_follow (stage : Stage α) (cues : List (Cue α)) (c : Channel) :
    (stage.follow cues).1.value? c =
      match (leavings c cues).getLast? with
      | some mark => c.update none mark.2
      | none => stage.value? c := by
  induction cues generalizing stage with
  | nil => rfl
  | cons cue rest ih =>
      rw [follow_cons, ih, leavings_cons, List.getLast?_append]
      cases hlast : (leavings c rest).getLast? with
      | some mark => rfl
      | none =>
          rw [Cue.value?_after]
          cases cue.leaving? c <;> rfl

theorem mem_follow {stage : Stage α} {cues : List (Cue α)} {w : Write α}
    (h : w ∈ (stage.follow cues).2) :
    ∃ cue ∈ cues, ∃ found : Stage α, w ∈ cue.writes found := by
  induction cues generalizing stage with
  | nil => exact absurd h List.not_mem_nil
  | cons cue rest ih =>
      rw [follow_cons] at h
      rcases List.mem_append.mp h with hcue | hrest
      · exact ⟨cue, List.mem_cons_self, stage, hcue⟩
      · obtain ⟨other, hother, found, hw⟩ := ih hrest
        exact ⟨other, List.mem_cons_of_mem _ hother, found, hw⟩

end Stage

end Order

section Time

variable {α : Type} [ExactScalar α]

namespace Cue

theorem time_of_mem_pulseKeys {start duration : α} {color : String} {repetitions : Nat}
    (hduration : 0 ≤ duration) {k : Keyframe α}
    (h : k ∈ pulseKeys start duration color repetitions) :
    start ≤ k.time ∧ k.time ≤ start + duration := by
  unfold pulseKeys at h
  rcases List.mem_append.mp h with h | h
  · obtain ⟨i, hi, rfl⟩ := List.mem_map.mp h
    have hi' : i < 2 * repetitions := List.mem_range.mp hi
    have htime : ∀ k' : Keyframe α,
        k'.time = start + (i : α) * (duration / ((2 * repetitions : Nat) : α)) →
        start ≤ k'.time ∧ k'.time ≤ start + duration := by
      intro k' hk'
      have hpos : (0 : α) < ((2 * repetitions : Nat) : α) := by
        exact_mod_cast Nat.lt_of_le_of_lt (Nat.zero_le i) hi'
      have hle : (i : α) ≤ ((2 * repetitions : Nat) : α) := by exact_mod_cast hi'.le
      have hpart : 0 ≤ duration / ((2 * repetitions : Nat) : α) :=
        div_nonneg hduration hpos.le
      have hlow : 0 ≤ (i : α) * (duration / ((2 * repetitions : Nat) : α)) :=
        mul_nonneg (Nat.cast_nonneg i) hpart
      have hhigh : (i : α) * (duration / ((2 * repetitions : Nat) : α)) ≤ duration :=
        calc
          (i : α) * (duration / ((2 * repetitions : Nat) : α)) ≤
              ((2 * repetitions : Nat) : α) *
                (duration / ((2 * repetitions : Nat) : α)) :=
            mul_le_mul_of_nonneg_right hle hpart
          _ = duration := mul_div_cancel₀ duration hpos.ne'
      rw [hk']
      exact ⟨le_add_of_nonneg_right hlow, by linarith⟩
    dsimp only
    split
    · exact htime _ rfl
    · exact htime _ rfl
  · rw [List.mem_singleton] at h
    subst h
    exact ⟨le_add_of_nonneg_right hduration, le_rfl⟩

/-- Every keyframe that a cue writes lies between its start and its finish. -/
theorem time_of_mem_writes {stage : Stage α} {cue : Cue α}
    (hduration : 0 ≤ cue.duration) {w : Write α} (h : w ∈ cue.writes stage) :
    cue.start ≤ w.2.time ∧ w.2.time ≤ cue.finish := by
  have hspan : cue.start ≤ cue.finish := le_add_of_nonneg_right hduration
  unfold writes at h
  split at h
  case h_6 =>
      obtain ⟨k, hk, rfl⟩ := List.mem_map.mp h
      exact time_of_mem_pulseKeys hduration hk
  case h_7 element _ =>
      rcases List.mem_cons.mp h with rfl | h
      · exact ⟨hspan, le_rfl⟩
      · obtain ⟨opacity, -, rfl⟩ := List.mem_map.mp h
        exact ⟨hspan, le_rfl⟩
  case h_10 => exact absurd h List.not_mem_nil
  all_goals
    simp only [List.mem_cons, List.not_mem_nil, or_false] at h
    rcases h with rfl | rfl | rfl <;>
      simp [hspan, Keyframe.flag, Keyframe.number, Keyframe.eased, Keyframe.color]

end Cue

variable {c : Channel} {cues : List (Cue α)}

/-- What is latest on the track is what was left at the latest time. -/
theorem foldl_later_follow (hc : c.property ≠ .highlight)
    (hcues : ∀ cue ∈ cues, 0 ≤ cue.duration) (stage : Stage α)
    (best : Option (Keyframe α)) :
    ((keysOf c (stage.follow cues).2).foldl (later Keyframe.time) best).map
        (fun k => (k.time, k.value)) =
      (leavings c cues).foldl (later Prod.fst) (best.map fun k => (k.time, k.value)) := by
  induction cues generalizing stage best with
  | nil => rfl
  | cons cue rest ih =>
      obtain ⟨hcue, hrest⟩ := List.forall_mem_cons.mp hcues
      have hblock := Cue.inOrder_keysOf_writes stage hcue hc
      have hlast := Cue.getLast?_keysOf_writes stage cue hc
      rw [Stage.follow_cons, keysOf_append, List.foldl_append, ih hrest, leavings_cons,
        List.foldl_append, foldl_later_of_pairwise hblock, ← hlast]
      congr 1
      have hmap := foldl_later_map Prod.fst (fun k : Keyframe α => (k.time, k.value))
        (keysOf c (cue.writes stage)).getLast?.toList best
      rw [← hmap]
      cases (keysOf c (cue.writes stage)).getLast? <;> rfl

/-- What is earliest on the track of a number is the earliest lead. -/
theorem foldl_earlier_follow (hhighlight : c.property ≠ .highlight)
    (hvisibility : c.property ≠ .visibility)
    (hcues : ∀ cue ∈ cues, 0 ≤ cue.duration) (stage : Stage α)
    (best : Option (Keyframe α)) :
    (keysOf c (stage.follow cues).2).foldl (earlier Keyframe.time) best =
      ((stage.leadings c cues).map fun lead => Keyframe.number lead.1 lead.2).foldl
        (earlier Keyframe.time) best := by
  induction cues generalizing stage best with
  | nil => rfl
  | cons cue rest ih =>
      obtain ⟨hcue, hrest⟩ := List.forall_mem_cons.mp hcues
      have hblock := Cue.inOrder_keysOf_writes stage hcue hhighlight
      have hhead := Cue.head?_keysOf_writes stage cue hhighlight hvisibility
      rw [Stage.follow_cons, keysOf_append, List.foldl_append, ih hrest,
        Stage.leadings, List.map_append, List.foldl_append,
        foldl_earlier_of_pairwise hblock, hhead]
      cases cue.lead? stage c <;> rfl

/-- A keyframe on a channel comes from a cue that touches the channel, and not before it. -/
theorem exists_touches_of_mem_follow (hc : c.property ≠ .highlight)
    (hcues : ∀ cue ∈ cues, 0 ≤ cue.duration) {stage : Stage α} {k : Keyframe α}
    (h : k ∈ keysOf c (stage.follow cues).2) :
    ∃ cue ∈ cues, cue.touches c = true ∧ cue.start ≤ k.time ∧ k.time ≤ cue.finish := by
  obtain ⟨cue, hcue, found, hw⟩ := Stage.mem_follow (mem_keysOf.mp h)
  have hmem : k ∈ keysOf c (cue.writes found) := mem_keysOf.mpr hw
  refine ⟨cue, hcue, ?_, Cue.time_of_mem_writes (hcues cue hcue) hw⟩
  rw [Cue.touches, ← Cue.getLast?_keysOf_writes found cue hc, Option.isSome_map]
  simpa using List.ne_nil_of_mem hmem

end Time

end Storyboard
