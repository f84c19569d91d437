import Storyboard.Proofs.Number.DoubleTimes
import Storyboard.Proofs.Timeline.Glow

/-!
# The cursor of a scene

The actions of a scene are produced in turn, and a cursor tells when the next one starts.
It goes on by the duration of each action.  The numbers that a script gives for durations
may be negative, infinite or not numbers at all, and groups may be nested in any way.
Still an action takes exactly as long as the longest step in it, and no step takes less
than no time or an undefined one.  So the cursor never goes back: adding to it can be
rounded, and it can reach infinity, but nothing that is added makes it smaller.
-/

namespace Storyboard

/-! ## Steps in actions -/

namespace Action

variable {α : Type}

/-- What passes from the members of a group to the group holds of every action. -/
@[elab_as_elim]
theorem memberInduction {motive : Action α → Prop} (step : ∀ s, motive (.step s))
    (together : ∀ actions, (∀ a ∈ actions, motive a) → motive (.together actions)) :
    ∀ a, motive a
  | .step s => step s
  | .together actions => together actions fun a _ => memberInduction step together a

/-- A step is in an action: it is the action, or it is in a member of the group. -/
inductive HasStep : Action α → Step α → Prop where
  | alone (s : Step α) : HasStep (.step s) s
  | member {actions : List (Action α)} {a : Action α} {s : Step α} (ha : a ∈ actions)
      (hs : HasStep a s) : HasStep (.together actions) s

theorem hasStep_step_iff {s s' : Step α} : (step s).HasStep s' ↔ s' = s := by
  constructor
  · rintro ⟨⟩
    rfl
  · rintro rfl
    exact .alone s'

theorem hasStep_together_iff {actions : List (Action α)} {s : Step α} :
    (together actions).HasStep s ↔ ∃ a ∈ actions, a.HasStep s := by
  constructor
  · rintro (_ | ⟨ha, hs⟩)
    exact ⟨_, ha, hs⟩
  · rintro ⟨a, ha, hs⟩
    exact .member ha hs

theorem mem_timedTogether_iff {start : α} {actions : List (Action α)} {e : TimedStep α} :
    e ∈ timedTogether start actions ↔ ∃ a ∈ actions, e ∈ a.timed start := by
  induction actions with
  | nil => simp [timedTogether]
  | cons a rest ih => simp [timedTogether, ih]

/-- All the steps in an action start with it. -/
theorem mem_timed_iff {start : α} {a : Action α} {e : TimedStep α} :
    e ∈ a.timed start ↔ e.1 = start ∧ a.HasStep e.2 := by
  induction a using memberInduction with
  | step s => rw [timed, List.mem_singleton, hasStep_step_iff, Prod.ext_iff]
  | together actions ih =>
      rw [timed, mem_timedTogether_iff, hasStep_together_iff]
      constructor
      · rintro ⟨a, ha, he⟩
        obtain ⟨hstart, hstep⟩ := (ih a ha).mp he
        exact ⟨hstart, a, ha, hstep⟩
      · rintro ⟨hstart, a, ha, hstep⟩
        exact ⟨a, ha, (ih a ha).mpr ⟨hstart, hstep⟩⟩

end Action

/-! ## The longest step -/

namespace Action

variable {α : Type} [Scalar α]

theorem longest_eq_or (least : α) (actions : List (Action α)) :
    longest least actions = least ∨ ∃ a ∈ actions, longest least actions = a.duration := by
  induction actions generalizing least with
  | nil => exact Or.inl (by rw [longest])
  | cons a rest ih =>
      rw [longest]
      rcases ih (Scalar.larger least a.duration) with h | ⟨b, hb, h⟩
      · rw [h]
        unfold Scalar.larger
        split_ifs
        · exact Or.inr ⟨a, List.mem_cons_self, rfl⟩
        · exact Or.inl rfl
      · exact Or.inr ⟨b, List.mem_cons_of_mem a hb, h⟩

/-- An action takes no time, or as long as one of the steps in it. -/
theorem duration_eq_zero_or (a : Action α) :
    a.duration = 0 ∨ ∃ s, a.HasStep s ∧ a.duration = s.duration := by
  induction a using memberInduction with
  | step s => exact Or.inr ⟨s, .alone s, by rw [duration]⟩
  | together actions ih =>
      rw [duration]
      rcases longest_eq_or 0 actions with h | ⟨a, ha, h⟩
      · exact Or.inl h
      · rw [h]
        refine (ih a ha).imp_right ?_
        rintro ⟨s, hs, hduration⟩
        exact ⟨s, .member ha hs, hduration⟩

/-- No step in an action takes longer than the action. -/
theorem HasStep.duration_le [TimeScalar α] {a : Action α} {s : Step α} (h : a.HasStep s) :
    s.duration ≤ a.duration := by
  induction h with
  | alone s =>
      rw [duration]
      exact LawfulScalar.right_defined s.duration_nonneg
  | member ha _ ih =>
      rw [duration]
      exact LawfulScalar.le_trans ih (duration_le_longest ha LawfulScalar.zero_le_zero)

/-- An action takes as long as the longest step in it, and no time if there is none. -/
structure LastsAsLongest (a : Action α) : Prop where
  le : ∀ s, a.HasStep s → s.duration ≤ a.duration
  attained : ∀ s, a.HasStep s → ∃ longest, a.HasStep longest ∧ longest.duration = a.duration
  none : (∀ s, ¬ a.HasStep s) → a.duration = 0

end Action

/-! ## Durations in double precision -/

theorem Scalar.nonNegative_eq_zero_or_pos {α : Type} [Scalar α] (x : α) :
    nonNegative x = 0 ∨ 0 < nonNegative x := by
  unfold nonNegative larger
  split_ifs with h
  · exact Or.inr h
  · exact Or.inl rfl

/-- A step that takes no time takes the positive zero. -/
theorem Step.duration_eq_zero_or_pos (s : Step Float) : s.duration = 0 ∨ 0 < s.duration := by
  have hshow : (0 : Float) < 0.5 := by decide
  have hpath : (0 : Float) < 0.8 := by decide
  have hdraw : (0 : Float) < 1.0 := by decide
  have hpulse : (0 : Float) < 1.5 := by decide
  cases s with
  | reveal | hide => exact Or.inr hshow
  | highlight => exact Or.inr hdraw
  | pulse => exact Or.inr hpulse
  | create id color shape =>
      cases shape with
      | path => exact Or.inr hpath
      | line | plane | tetrahedron => exact Or.inr hdraw
  | unread => exact Or.inl rfl
  | fadeIn | fadeOut | animatePoint | fold | wait => exact Scalar.nonNegative_eq_zero_or_pos _

theorem Action.lastsAsLongest (a : Action Float) : a.LastsAsLongest where
  le := fun _ hs => hs.duration_le
  attained := by
    intro s hs
    rcases a.duration_eq_zero_or with hzero | ⟨longest, hlongest, hduration⟩
    · -- with the whole action the step takes no time, and all of them take the same zero
      refine ⟨s, hs, ?_⟩
      have hle : s.duration ≤ 0 := hzero ▸ hs.duration_le
      rw [hzero]
      exact s.duration_eq_zero_or_pos.resolve_right (Scalar.not_lt_of_le hle)
    · exact ⟨longest, hlongest, hduration.symm⟩
  none := by
    intro hnone
    refine a.duration_eq_zero_or.resolve_right ?_
    rintro ⟨s, hs, -⟩
    exact hnone s hs

/-! ## The cursor -/

/-- The steps of actions in turn start when the actions before theirs are over. -/
theorem Action.mem_timedInTurn_iff {α : Type} [Scalar α] {start : α} {actions : List (Action α)}
    {e : TimedStep α} :
    e ∈ timedInTurn start actions ↔ ∃ i a, actions[i]? = some a ∧
      e.1 = endInTurn start (actions.take i) ∧ a.HasStep e.2 := by
  induction actions generalizing start with
  | nil => simp [timedInTurn]
  | cons a rest ih =>
      rw [timedInTurn, List.mem_append, mem_timed_iff, ih]
      constructor
      · rintro (⟨hstart, hstep⟩ | ⟨i, b, hb, hstart, hstep⟩)
        · exact ⟨0, a, rfl, hstart, hstep⟩
        · exact ⟨i + 1, b, hb, hstart, hstep⟩
      · rintro ⟨_ | i, b, hb, hstart, hstep⟩
        · obtain rfl : a = b := Option.some.inj hb
          exact Or.inl ⟨hstart, hstep⟩
        · exact Or.inr ⟨i, b, hb, hstart, hstep⟩

namespace Scene

section Cursor

variable {α : Type} [Scalar α]

/-- The time of a scene that has passed once so many of its actions are produced. -/
def cursor (s : Scene α) (n : ℕ) : α := Action.endInTurn 0 (s.actions.take n)

theorem cursor_succ {s : Scene α} {i : ℕ} {a : Action α} (h : s.actions[i]? = some a) :
    s.cursor (i + 1) = s.cursor i + a.duration := by
  rw [cursor, List.take_add_one, h, Action.endInTurn, List.foldl_append]
  rfl

theorem cursor_length (s : Scene α) :
    s.cursor s.actions.length = Action.endInTurn 0 s.actions := by
  rw [cursor, List.take_length]

variable [TimeScalar α]

open LawfulScalar TimeScalar

theorem cursor_nonneg (s : Scene α) (i : ℕ) : 0 ≤ s.cursor i :=
  Action.le_endInTurn zero_le_zero _

/-- An action does not set the cursor back. -/
theorem cursor_le_succ (s : Scene α) (i : ℕ) : s.cursor i ≤ s.cursor (i + 1) := by
  rcases h : s.actions[i]? with _ | a
  · rw [cursor, cursor, List.take_add_one, h, Option.toList_none, List.append_nil]
    exact right_defined (s.cursor_nonneg i)
  · rw [cursor_succ h]
    exact le_add (s.cursor_nonneg i) a.duration_nonneg

/-- The cursor is never set back. -/
theorem cursor_mono (s : Scene α) {i j : ℕ} (h : i ≤ j) : s.cursor i ≤ s.cursor j := by
  induction j, h using Nat.le_induction with
  | base => exact right_defined (s.cursor_nonneg i)
  | succ j _ ih => exact le_trans ih (s.cursor_le_succ j)

end Cursor

/--
No action takes less than no time or an undefined one, and a group takes as long as the
longest step in it, at whatever depth, or no time if there is none.  The cursor of a scene
starts at zero and goes on by the duration of each action; all the steps in the action
start where it stands, and so do their cues, up to the first step that has none.  It is
never set back, and a scene that is produced lasts until its last position, or for as long
as its narration is read, and the padding.
-/
theorem cursor_never_goes_back :
    (∀ a : Action Float, a.duration.isNaN = false ∧ ¬ a.duration < 0) ∧
    (∀ actions : List (Action Float), (Action.together actions).LastsAsLongest) ∧
    ∀ s : Scene Float,
      s.cursor 0 = 0 ∧
      (∀ i a, s.actions[i]? = some a → s.cursor (i + 1) = s.cursor i + a.duration) ∧
      (∀ e, e ∈ s.timedSteps ↔
        ∃ i a, s.actions[i]? = some a ∧ e.1 = s.cursor i ∧ a.HasStep e.2) ∧
      (∀ m, (s.cues m).map Cue.start <+: s.timedSteps.map Prod.fst) ∧
      (∀ i j, i ≤ j → s.cursor i ≤ s.cursor j) ∧
      (s.timedSteps.map Prod.fst).Pairwise (· ≤ ·) ∧
      ∀ timing fig start stage registry produced,
        s.produce timing fig start stage registry = .ok produced →
          produced.segment.finish = start + (Scalar.larger (s.readingTime timing)
            (s.cursor s.actions.length) + timing.scenePadding) := by
  refine ⟨?_, fun actions => (Action.together actions).lastsAsLongest, ?_⟩
  · intro a
    exact ⟨isNaN_eq_false a.duration_nonneg, Scalar.not_lt_of_le a.duration_nonneg⟩
  · intro s
    refine ⟨rfl, fun i a h => cursor_succ h, fun e => Action.mem_timedInTurn_iff,
      fun m => s.cues_starts m, fun i j h => s.cursor_mono h, ?_, ?_⟩
    · exact List.pairwise_map.mpr
        (Action.pairwise_timedInTurn LawfulScalar.zero_le_zero s.actions)
    · intro timing fig start stage registry produced h
      obtain ⟨-, -, hfinish, -⟩ := produce_eq_ok h
      rw [hfinish, length, cursor_length]

/-- A fold that never ends, deep in a group with an empty one and a fade of less than no time. -/
def unsteadyGroup : Action Float :=
  .together [.step (.fadeIn "A" (some (-2.0))),
    .together [.together [], .step (.fold "hinge" none none (some (1.0 / 0.0)))]]

/-- A scene that waits for an undefined time before, and infinitely less than none after it. -/
def unsteadyScene : Scene Float :=
  ⟨"unsteady", "", Camera.standard,
    [.step (.wait (0.0 / 0.0)), unsteadyGroup, .step (.wait (-1.0 / 0.0))], none⟩

theorem cursor_never_goes_back_unsteady :
    unsteadyScene.actions[1]? = some unsteadyGroup ∧
    unsteadyScene.cursor 2 = unsteadyScene.cursor 1 + unsteadyGroup.duration ∧
    (∃ s, unsteadyGroup.HasStep s ∧ s.duration = unsteadyGroup.duration) ∧
    2 ≤ 3 ∧ unsteadyScene.cursor 2 ≤ unsteadyScene.cursor 3 ∧
    ∃ fig produced, (plainSquare : Model Float).figure = .ok fig ∧
      unsteadyScene.produce Timing.usual fig 0 (Stage.initial plainSquare) OrderedMap.empty =
        .ok produced ∧
      produced.segment.finish = 0 + (Scalar.larger (unsteadyScene.readingTime Timing.usual)
        (unsteadyScene.cursor 3) + (Timing.usual : Timing Float).scenePadding) := by
  obtain ⟨fig, hfig⟩ : ∃ fig, (plainSquare : Model Float).figure = .ok fig := ⟨_, rfl⟩
  obtain ⟨produced, hproduced⟩ : ∃ produced, unsteadyScene.produce Timing.usual fig 0
      (Stage.initial plainSquare) OrderedMap.empty = .ok produced :=
    exists_produce_eq_ok _ _ _ rfl rfl rfl
  have hfade : unsteadyGroup.HasStep (.fadeIn "A" (some (-2.0))) :=
    .member List.mem_cons_self (.alone _)
  obtain ⟨-, hgroups, hscenes⟩ := cursor_never_goes_back
  obtain ⟨-, hadvance, -, -, hmono, -, hfinish⟩ := hscenes unsteadyScene
  exact ⟨rfl, hadvance 1 _ rfl, (hgroups _).attained _ hfade, by decide, hmono 2 3 (by decide),
    fig, produced, hfig, hproduced, hfinish _ _ _ _ _ _ hproduced⟩

end Scene

end Storyboard
