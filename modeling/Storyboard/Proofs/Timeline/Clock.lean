import Storyboard.Proofs.Number.Times
import Storyboard.Timeline.Cue

/-!
# The clock of a scene

The members of a group start with the group and end within it, and an action that
follows another starts when that one has ended.  So every step of a scene runs
between the start of the scene and the end of its last action.
-/

namespace Storyboard

/-! ## In document order -/

namespace Action

variable {α : Type}

mutual

theorem map_snd_timed (start : α) (place : Place) (a : Action α) :
    (timed start a).map Prod.snd = (located place a).map Prod.snd := by
  cases a with
  | step s => rw [timed, located]; rfl
  | together actions =>
      rw [timed, located]
      exact map_snd_timedTogether start place 0 actions

theorem map_snd_timedTogether (start : α) (place : Place) (i : Nat)
    (actions : List (Action α)) :
    (timedTogether start actions).map Prod.snd =
      (locatedFrom place i actions).map Prod.snd := by
  cases actions with
  | nil => rw [timedTogether, locatedFrom]; rfl
  | cons a rest =>
      rw [timedTogether, locatedFrom, List.map_append, List.map_append,
        map_snd_timed start (place.child i) a,
        map_snd_timedTogether start place (i + 1) rest]

end

/-- The steps of a scene are timed in document order. -/
theorem map_snd_timedInTurn [Scalar α] (start : α) (place : Place) (i : Nat)
    (actions : List (Action α)) :
    (timedInTurn start actions).map Prod.snd =
      (locatedFrom place i actions).map Prod.snd := by
  induction actions generalizing start i with
  | nil => rw [timedInTurn, locatedFrom]; rfl
  | cons a rest ih =>
      rw [timedInTurn, locatedFrom, List.map_append, List.map_append,
        map_snd_timed start (place.child i) a, ih (start + a.duration) (i + 1)]

end Action

/-! ## Actions in actions -/

namespace Action

variable {α : Type}

mutual

/-- An action that starts at a time with all the actions in it, and when each of them starts. -/
def runs (start : α) : Action α → List (α × Action α)
  | .step s => [(start, .step s)]
  | .together actions => (start, .together actions) :: runsTogether start actions

/-- Actions that start together with all the actions in them, and when each of them starts. -/
def runsTogether (start : α) : List (Action α) → List (α × Action α)
  | [] => []
  | a :: rest => runs start a ++ runsTogether start rest

end

/-- Actions that follow one another with all the actions in them, and when each starts. -/
def runsInTurn [Scalar α] (start : α) : List (Action α) → List (α × Action α)
  | [] => []
  | a :: rest => a.runs start ++ runsInTurn (start + a.duration) rest

mutual

theorem mem_runs (start : α) (a : Action α) :
    ∀ e ∈ a.timed start, (e.1, .step e.2) ∈ a.runs start := by
  cases a with
  | step s =>
      intro e he
      rw [timed, List.mem_singleton] at he
      subst he
      rw [runs]
      exact List.mem_cons_self
  | together actions =>
      intro e he
      rw [timed] at he
      rw [runs]
      exact List.mem_cons_of_mem _ (mem_runsTogether start actions e he)

theorem mem_runsTogether (start : α) (actions : List (Action α)) :
    ∀ e ∈ timedTogether start actions, (e.1, .step e.2) ∈ runsTogether start actions := by
  cases actions with
  | nil =>
      intro e he
      rw [timedTogether] at he
      exact absurd he List.not_mem_nil
  | cons a rest =>
      intro e he
      rw [timedTogether] at he
      rw [runsTogether]
      rcases List.mem_append.mp he with he | he
      · exact List.mem_append_left _ (mem_runs start a e he)
      · exact List.mem_append_right _ (mem_runsTogether start rest e he)

end

/-- Every step is one of the actions that run, and starts when it starts. -/
theorem mem_runsInTurn [Scalar α] (start : α) (actions : List (Action α)) :
    ∀ e ∈ timedInTurn start actions, (e.1, .step e.2) ∈ runsInTurn start actions := by
  induction actions generalizing start with
  | nil =>
      intro e he
      exact absurd he List.not_mem_nil
  | cons a rest ih =>
      intro e he
      rw [timedInTurn] at he
      rw [runsInTurn]
      rcases List.mem_append.mp he with he | he
      · exact List.mem_append_left _ (mem_runs start a e he)
      · exact List.mem_append_right _ (ih (start + a.duration) e he)

end Action

/-! ## Actions before others -/

namespace Action

variable {α : Type}

theorem longest_append [Scalar α] (least : α) (front back : List (Action α)) :
    longest least (front ++ back) = longest (longest least front) back := by
  induction front generalizing least with
  | nil => rw [longest, List.nil_append]
  | cons a rest ih => rw [List.cons_append, longest, longest, ih]

theorem timedTogether_append (start : α) (front back : List (Action α)) :
    timedTogether start (front ++ back) =
      timedTogether start front ++ timedTogether start back := by
  induction front with
  | nil => rw [timedTogether, List.nil_append, List.nil_append]
  | cons a rest ih =>
      rw [List.cons_append, timedTogether, timedTogether, ih, List.append_assoc]

theorem timedInTurn_append [Scalar α] (start : α) (front back : List (Action α)) :
    timedInTurn start (front ++ back) =
      timedInTurn start front ++ timedInTurn (endInTurn start front) back := by
  induction front generalizing start with
  | nil => rfl
  | cons a rest ih =>
      rw [List.cons_append, timedInTurn, timedInTurn, ih, List.append_assoc]
      rfl

end Action

/-! ## Durations -/

section Durations

variable {α : Type} [Scalar α]

open LawfulScalar TimeScalar

theorem Step.duration_nonneg [TimeScalar α] (s : Step α) : 0 ≤ s.duration := by
  cases s with
  | reveal | hide => exact literal_nonneg _ _ _
  | highlight | pulse => exact literal_nonneg _ _ _
  | create id color shape => cases shape <;> exact literal_nonneg _ _ _
  | unread => exact zero_le_zero
  | fadeIn | fadeOut | animatePoint | fold | wait => exact Scalar.zero_le_nonNegative _

namespace Action

mutual

theorem duration_nonneg [TimeScalar α] (a : Action α) : 0 ≤ a.duration := by
  cases a with
  | step s =>
      rw [duration]
      exact s.duration_nonneg
  | together actions =>
      rw [duration]
      exact le_longest zero_le_zero actions

theorem le_longest [TimeScalar α] {least : α} (h : 0 ≤ least) (actions : List (Action α)) :
    least ≤ longest least actions := by
  cases actions with
  | nil =>
      rw [longest]
      exact right_defined h
  | cons a rest =>
      have hlarger : least ≤ Scalar.larger least a.duration := le_larger_left h a.duration
      rw [longest]
      exact le_trans hlarger (le_longest (le_trans h hlarger) rest)

end

theorem duration_le_longest [TimeScalar α] {a : Action α} {actions : List (Action α)}
    (h : a ∈ actions) {least : α} (hleast : 0 ≤ least) : a.duration ≤ longest least actions := by
  induction actions generalizing least with
  | nil => exact absurd h List.not_mem_nil
  | cons b rest ih =>
      have hlarger : 0 ≤ Scalar.larger least b.duration :=
        le_trans hleast (le_larger_left hleast b.duration)
      rw [longest]
      rcases List.mem_cons.mp h with rfl | h
      · exact le_trans (le_larger_right hleast a.duration_nonneg) (le_longest hlarger rest)
      · exact ih h hlarger

mutual

/-- The actions in an action start with it and end within it. -/
theorem runs_bounds [TimeScalar α] (start : α) (a : Action α) :
    ∀ e ∈ a.runs start, e.1 = start ∧ e.2.duration ≤ a.duration := by
  cases a with
  | step s =>
      intro e he
      rw [runs, List.mem_singleton] at he
      subst he
      exact ⟨rfl, right_defined (duration_nonneg _)⟩
  | together actions =>
      intro e he
      rw [runs] at he
      rcases List.mem_cons.mp he with rfl | he
      · exact ⟨rfl, right_defined (duration_nonneg _)⟩
      · obtain ⟨hstart, a, ha, hle⟩ := runsTogether_bounds start actions e he
        rw [duration]
        exact ⟨hstart, le_trans hle (duration_le_longest ha zero_le_zero)⟩

theorem runsTogether_bounds [TimeScalar α] (start : α) (actions : List (Action α)) :
    ∀ e ∈ runsTogether start actions,
      e.1 = start ∧ ∃ a ∈ actions, e.2.duration ≤ a.duration := by
  cases actions with
  | nil =>
      intro e he
      rw [runsTogether] at he
      exact absurd he List.not_mem_nil
  | cons a rest =>
      intro e he
      rw [runsTogether] at he
      rcases List.mem_append.mp he with he | he
      · obtain ⟨hstart, hle⟩ := runs_bounds start a e he
        exact ⟨hstart, a, List.mem_cons_self, hle⟩
      · obtain ⟨hstart, b, hb, hle⟩ := runsTogether_bounds start rest e he
        exact ⟨hstart, b, List.mem_cons_of_mem _ hb, hle⟩

end

/-- The steps of an action start with it and end within it. -/
theorem timed_bounds [TimeScalar α] (start : α) (a : Action α) :
    ∀ e ∈ a.timed start, e.1 = start ∧ e.2.duration ≤ a.duration := by
  intro e he
  obtain ⟨hstart, hle⟩ := runs_bounds start a _ (mem_runs start a e he)
  rw [duration] at hle
  exact ⟨hstart, hle⟩

theorem le_endInTurn [TimeScalar α] {start : α} (h : 0 ≤ start) (actions : List (Action α)) :
    start ≤ endInTurn start actions := by
  induction actions generalizing start with
  | nil => exact right_defined h
  | cons a rest ih =>
      have hstep : start ≤ start + a.duration := le_add h a.duration_nonneg
      exact le_trans hstep (ih (le_trans h hstep))

/-- Actions in turn run from the start up to the end of the last one, with all in them. -/
theorem runsInTurn_bounds [TimeScalar α] {start : α} (h : 0 ≤ start)
    (actions : List (Action α)) :
    ∀ e ∈ runsInTurn start actions,
      start ≤ e.1 ∧ e.1 + e.2.duration ≤ endInTurn start actions := by
  induction actions generalizing start with
  | nil =>
      intro e he
      exact absurd he List.not_mem_nil
  | cons a rest ih =>
      intro e he
      rw [runsInTurn] at he
      have hstep : start ≤ start + a.duration := le_add h a.duration_nonneg
      rcases List.mem_append.mp he with he | he
      · obtain ⟨hstart, hle⟩ := runs_bounds start a e he
        have hend : start + a.duration ≤ endInTurn start (a :: rest) :=
          le_endInTurn (le_trans h hstep) rest
        have hwithin : start + e.2.duration ≤ start + a.duration :=
          add_le_add h (duration_nonneg e.2) (right_defined h) hle
        rw [hstart]
        exact ⟨right_defined h, le_trans hwithin hend⟩
      · obtain ⟨hstart, hle⟩ := ih (le_trans h hstep) e he
        exact ⟨le_trans hstep hstart, hle⟩

/-- The steps of actions in turn run from the start up to the end of the last action. -/
theorem timedInTurn_bounds [TimeScalar α] {start : α} (h : 0 ≤ start)
    (actions : List (Action α)) :
    ∀ e ∈ timedInTurn start actions,
      start ≤ e.1 ∧ e.1 + e.2.duration ≤ endInTurn start actions := by
  intro e he
  obtain ⟨hstart, hle⟩ :=
    runsInTurn_bounds h actions _ (mem_runsInTurn start actions e he)
  rw [duration] at hle
  exact ⟨hstart, hle⟩

end Action

end Durations

/-! ## Exact durations -/

namespace Action

variable {α : Type} [ExactScalar α]

theorem longest_max (x y : α) (actions : List (Action α)) :
    longest (max x y) actions = max x (longest y actions) := by
  induction actions generalizing y with
  | nil => rw [longest, longest]
  | cons a rest ih =>
      rw [longest, longest, ExactScalar.larger_eq_max, ExactScalar.larger_eq_max, max_assoc, ih]

theorem longest_append_eq_max (front back : List (Action α)) :
    longest 0 (front ++ back) = max (longest 0 front) (longest 0 back) := by
  have hfront : (0 : α) ≤ longest 0 front := le_longest le_rfl front
  rw [longest_append, ← longest_max, max_eq_left hfront]

theorem longest_cons_eq_max (a : Action α) (rest : List (Action α)) :
    longest 0 (a :: rest) = max a.duration (longest 0 rest) := by
  rw [longest, ExactScalar.larger_eq_max, max_comm, longest_max]

end Action

end Storyboard
