import Storyboard.Proofs.Timeline.Keys

/-!
# What is written to a highlight

A highlight is set by a step that highlights its target and comes and goes with a
pulse.  The scene holds what is highlighted until its end, where it is released and
cleared.  What is only pulsed is not held; it is cleared when the last pulse is over,
since all pulses take the same time and start in document order.
-/

namespace Storyboard

open Track

/-! ## What is written to a highlight -/

section Glow

variable {α : Type} [Scalar α]

/-- The keyframes that a cue writes to the highlight of a target. -/
def Cue.glow (id : String) (cue : Cue α) : List (Keyframe α) :=
  match cue.effect with
  | .highlight target color => if target = id then [.color cue.start color] else []
  | .pulse target color repetitions =>
    if target = id then pulseKeys cue.start cue.duration color repetitions else []
  | _ => []

/-- Highlights are not looked up on the stage. -/
theorem Cue.keysOf_writes_highlight (stage : Stage α) (cue : Cue α) (id : String) :
    keysOf ⟨.highlight, id⟩ (cue.writes stage) = cue.glow id := by
  have hother : ∀ {c : Channel} (k : Keyframe α) (ws : List (Write α)),
      c.property ≠ .highlight →
      keysOf ⟨.highlight, id⟩ ((c, k) :: ws) = keysOf ⟨.highlight, id⟩ ws := by
    intro c k ws hc
    rw [keysOf_cons, if_neg fun h => hc (congrArg Channel.property h)]
  unfold writes glow
  cases cue.effect with
  | highlight target color => simp [keysOf_cons]
  | pulse target color repetitions =>
      dsimp only
      rw [keysOf_map_key]
      simp
  | create element =>
      dsimp only
      rw [hother _ _ (by simp)]
      apply keysOf_eq_nil
      intro w hw heq
      obtain ⟨opacity, -, rfl⟩ := List.mem_map.mp hw
      cases heq
  | reveal | hide | fadeIn | fadeOut | drive | fold | rest => simp [keysOf_cons]

theorem Stage.keysOf_follow_highlight (stage : Stage α) (cues : List (Cue α)) (id : String) :
    keysOf ⟨.highlight, id⟩ (stage.follow cues).2 = cues.flatMap (Cue.glow id) := by
  induction cues generalizing stage with
  | nil => rfl
  | cons cue rest ih =>
      rw [Stage.follow, List.flatMap_cons, keysOf_append, Cue.keysOf_writes_highlight, ih]

/-- What is released of a highlight: its color is held, and cleared at the end. -/
theorem keysOf_releaseWrites_highlight (duration release : α) (held : OrderedMap String String)
    (id : String) :
    keysOf ⟨.highlight, id⟩ (releaseWrites duration release held) =
      (held.get? id).toList.flatMap fun color =>
        [.color (Scalar.nonNegative (duration - release)) color, .clear duration] := by
  have hentries : ∀ entries : List (String × String),
      keysOf ⟨.highlight, id⟩ (entries.flatMap fun e =>
        ([(⟨.highlight, e.1⟩, .color (Scalar.nonNegative (duration - release)) e.2),
          (⟨.highlight, e.1⟩, .clear duration)] : List (Write α))) =
      (entries.filter fun e => e.1 = id).flatMap fun e =>
        [.color (Scalar.nonNegative (duration - release)) e.2, .clear duration] := by
    intro entries
    induction entries with
    | nil => rfl
    | cons e rest ih =>
        rw [List.flatMap_cons, keysOf_append, ih]
        by_cases h : e.1 = id
        · simp [h]
        · simp [h]
  rw [releaseWrites, hentries, held.filter_entries id, List.flatMap_map]

end Glow

/-! ## What is held -/

section Held

variable {α : Type}

/-- The color in which an effect highlights a target. -/
def Effect.highlightOf? (id : String) : Effect α → Option String
  | .highlight target color => if target = id then some color else none
  | _ => none

/-- Of several highlights of a target the last one is held. -/
theorem get?_heldHighlights (cues : List (Cue α)) (id : String) :
    (heldHighlights cues).get? id =
      (cues.filterMap fun cue => cue.effect.highlightOf? id).getLast? := by
  unfold heldHighlights
  induction cues using List.reverseRecOn with
  | nil => rfl
  | append_singleton front last ih =>
      rw [List.foldl_append, List.filterMap_append, List.getLast?_append, ← ih]
      simp only [List.foldl_cons, List.foldl_nil]
      cases heffect : last.effect with
      | highlight target color =>
          simp only [OrderedMap.get?_insert, List.filterMap_cons, List.filterMap_nil, heffect,
            Effect.highlightOf?, eq_comm (a := id)]
          split_ifs <;> rfl
      | reveal | hide | fadeIn | fadeOut | pulse | create | drive | fold | rest =>
          simp [heffect, Effect.highlightOf?]

/-- What is not held at the end was not highlighted in the scene. -/
theorem effect_ne_of_get?_heldHighlights {cues : List (Cue α)} {id : String}
    (h : (heldHighlights cues).get? id = none) :
    ∀ cue ∈ cues, ∀ color, cue.effect ≠ .highlight id color := by
  intro cue hcue color heffect
  rw [get?_heldHighlights, List.getLast?_eq_none_iff, List.filterMap_eq_nil_iff] at h
  have hnone := h cue hcue
  rw [heffect, Effect.highlightOf?, if_pos rfl] at hnone
  cases hnone

end Held

/-! ## When cues start -/

theorem Scene.cues_starts {α : Type} [Scalar α] (m : Model α) (s : Scene α) :
    (s.cues m).map Cue.start <+: s.timedSteps.map Prod.fst := by
  unfold cues
  induction s.timedSteps with
  | nil => exact List.prefix_rfl
  | cons e rest ih =>
      rw [List.map_cons]
      cases hcue : Step.cue m s.id e with
      | error fault => exact List.nil_prefix
      | ok cue =>
          obtain ⟨hstart, -, -⟩ := Step.cue_eq_ok hcue
          rw [List.map_cons, ← hstart]
          exact (List.prefix_cons_inj cue.start).mpr ih

section Order

variable {α : Type} [Scalar α] [TimeScalar α]

open LawfulScalar TimeScalar

/-- Steps in document order start one after the other or together. -/
theorem Action.pairwise_timedInTurn {start : α} (h : 0 ≤ start) (actions : List (Action α)) :
    (timedInTurn start actions).Pairwise fun e e' => e.1 ≤ e'.1 := by
  induction actions generalizing start with
  | nil => exact List.Pairwise.nil
  | cons a rest ih =>
      have hstep : start ≤ start + a.duration := le_add h a.duration_nonneg
      rw [timedInTurn]
      refine List.pairwise_append.mpr ⟨?_, ih (le_trans h hstep), ?_⟩
      · apply List.pairwise_of_forall_mem_list
        intro e he e' he'
        rw [(timed_bounds start a e he).1, (timed_bounds start a e' he').1]
        exact right_defined h
      · intro e he e' he'
        rw [(timed_bounds start a e he).1]
        exact le_trans hstep (timedInTurn_bounds (le_trans h hstep) rest e' he').1

/-- The cues of a scene start one after the other or together. -/
theorem Scene.pairwise_cues (m : Model α) (s : Scene α) :
    (s.cues m).Pairwise fun a b => a.start ≤ b.start := by
  have hsteps : (s.timedSteps.map Prod.fst).Pairwise fun a b => a ≤ b :=
    List.pairwise_map.mpr (Action.pairwise_timedInTurn zero_le_zero s.actions)
  exact List.pairwise_map.mp (hsteps.sublist (s.cues_starts m).sublist)

end Order

/-! ## When highlights change -/

section Times

variable {α : Type} [Scalar α]

theorem Step.pulseCount_le (times : Option α) : pulseCount times ≤ 100 := by
  unfold pulseCount
  split
  · split_ifs
    · refine max_le (by norm_num) (List.countP_le_length.trans_eq ?_)
      rw [List.length_range]
      rfl
    · norm_num
  · norm_num

/-- A pulse takes as long as all pulses do, and does not go on and off too often. -/
def Cue.IsRegular (cue : Cue α) : Prop :=
  ∀ target color repetitions, cue.effect = .pulse target color repetitions →
    cue.duration = 1.5 ∧ repetitions ≤ 100

theorem Step.isRegular_of_cue {m : Model α} {scene : String} {e : TimedStep α} {cue : Cue α}
    (h : Step.cue m scene e = .ok cue) : cue.IsRegular := by
  obtain ⟨-, hduration, heffect⟩ := Step.cue_eq_ok h
  intro target color repetitions hpulse
  rw [hpulse] at heffect
  rw [hduration]
  cases hstep : e.2 with
  | pulse target' color' times =>
      rw [hstep] at heffect
      cases heffect
      exact ⟨rfl, pulseCount_le times⟩
  | create id color' shape =>
      rw [hstep, effect] at heffect
      cases helement : element scene id color' shape with
      | error fault =>
          rw [helement] at heffect
          cases heffect
      | ok found =>
          rw [helement] at heffect
          cases heffect
  | animatePoint target' start finish duration =>
      rw [hstep, effect] at heffect
      split at heffect
      · cases heffect
      · cases heffect
  | reveal | hide | fadeIn | fadeOut | highlight | fold | wait | unread =>
      rw [hstep] at heffect
      cases heffect

/-- A cue that writes to a highlight which it does not hold is a pulse. -/
theorem Cue.glow_eq_pulseKeys {cue : Cue α} {id : String} (hregular : cue.IsRegular)
    (hpulse : ∀ color, cue.effect ≠ .highlight id color) (h : cue.glow id ≠ []) :
    cue.duration = 1.5 ∧
      ∃ keys, cue.glow id = keys ++ [.clear cue.finish] := by
  unfold glow at h ⊢
  cases heffect : cue.effect with
  | highlight target color =>
      rw [heffect] at h
      dsimp only at h
      split_ifs at h with hid
      · subst hid
        exact absurd heffect (hpulse color)
      · exact absurd rfl h
  | pulse target color repetitions =>
      rw [heffect] at h
      dsimp only at h ⊢
      split_ifs at h ⊢ with hid
      · exact ⟨(hregular target color repetitions heffect).1, _, rfl⟩
      · exact absurd rfl h
  | reveal | hide | fadeIn | fadeOut | create | drive | fold | rest =>
      rw [heffect] at h
      exact absurd rfl h

theorem Scene.isRegular_of_mem_cues {m : Model α} {s : Scene α} {cue : Cue α}
    (h : cue ∈ s.cues m) : cue.IsRegular := by
  obtain ⟨e, -, hcue⟩ := List.mem_map.mp (mem_of_mem_untilError h)
  exact Step.isRegular_of_cue hcue

variable [TimeScalar α]

open LawfulScalar TimeScalar

/-- A pulse does not change any more once it is over. -/
theorem Cue.time_le_of_mem_pulseKeys {start : α} {color : String} {repetitions : Nat}
    {k : Keyframe α} (hstart : 0 ≤ start) (hrepetitions : repetitions ≤ 100)
    (h : k ∈ pulseKeys start 1.5 color repetitions) : k.time ≤ start + 1.5 := by
  have hpulse : (0 : α) ≤ 1.5 := literal_nonneg _ _ _
  rcases List.mem_append.mp h with h | h
  · obtain ⟨i, hi, rfl⟩ := List.mem_map.mp h
    obtain ⟨hnonneg, hle⟩ := part_bounds (α := α) (List.mem_range.mp hi) hrepetitions
    have hwithin : start + (i : α) * (1.5 / ((2 * repetitions : Nat) : α)) ≤ start + 1.5 :=
      add_le_add hstart hnonneg (right_defined hstart) hle
    dsimp only
    split_ifs
    · exact hwithin
    · exact hwithin
  · obtain rfl := List.mem_singleton.mp h
    exact right_defined (add_nonneg hstart hpulse)

/-- What a cue writes to a highlight is due by the time it has ended. -/
theorem Cue.time_le_of_mem_glow {cue : Cue α} {id : String} {k : Keyframe α}
    (hregular : cue.IsRegular) (hstart : 0 ≤ cue.start) (hduration : 0 ≤ cue.duration)
    (h : k ∈ cue.glow id) : k.time ≤ cue.finish := by
  unfold glow at h
  split at h
  next target color heffect =>
    split_ifs at h
    · obtain rfl := List.mem_singleton.mp h
      exact le_add hstart hduration
    · exact absurd h List.not_mem_nil
  next target color repetitions heffect =>
    obtain ⟨hpulse, hrepetitions⟩ := hregular target color repetitions heffect
    split_ifs at h
    · rw [hpulse] at h
      rw [finish, hpulse]
      exact time_le_of_mem_pulseKeys hstart hrepetitions h
    · exact absurd h List.not_mem_nil
  next => exact absurd h List.not_mem_nil

/-- What only pulses write to a highlight ends with the clearing of the last pulse. -/
theorem glow_of_pulses {cues : List (Cue α)} {id : String}
    (hregular : ∀ cue ∈ cues, cue.IsRegular) (hstarts : ∀ cue ∈ cues, 0 ≤ cue.start)
    (horder : cues.Pairwise fun a b => a.start ≤ b.start)
    (hpulses : ∀ cue ∈ cues, ∀ color, cue.effect ≠ .highlight id color) :
    cues.flatMap (Cue.glow id) = [] ∨
      ∃ keys, ∃ cue ∈ cues, cues.flatMap (Cue.glow id) = keys ++ [.clear cue.finish] ∧
        ∀ k ∈ keys, k.time ≤ cue.finish := by
  have hpulse : (0 : α) ≤ 1.5 := literal_nonneg _ _ _
  -- from the back, since it is the last pulse that counts
  induction cues using List.reverseRecOn with
  | nil => exact Or.inl rfl
  | append_singleton front last ih =>
      obtain ⟨hfront, -, hlast⟩ := List.pairwise_append.mp horder
      have hin : ∀ cue ∈ front, cue ∈ front ++ [last] := by
        intro cue hcue
        exact List.mem_append_left [last] hcue
      have hend : last ∈ front ++ [last] := List.mem_append_right front List.mem_cons_self
      rw [List.flatMap_append, List.flatMap_singleton]
      by_cases hglow : last.glow id = []
      · rw [hglow, List.append_nil]
        rcases ih (fun cue h => hregular cue (hin cue h)) (fun cue h => hstarts cue (hin cue h))
          hfront (fun cue h => hpulses cue (hin cue h)) with h | ⟨keys, cue, hcue, hkeys, hle⟩
        · exact Or.inl h
        · exact Or.inr ⟨keys, cue, hin cue hcue, hkeys, hle⟩
      · obtain ⟨hduration, keys, hkeys⟩ :=
          Cue.glow_eq_pulseKeys (hregular last hend) (hpulses last hend) hglow
        refine Or.inr ⟨front.flatMap (Cue.glow id) ++ keys, last, hend, ?_, ?_⟩
        · rw [hkeys, List.append_assoc]
        intro k hk
        rcases List.mem_append.mp hk with hk | hk
        · obtain ⟨cue, hcue, hk⟩ := List.mem_flatMap.mp hk
          obtain ⟨hduration', -⟩ := Cue.glow_eq_pulseKeys (hregular cue (hin cue hcue))
            (hpulses cue (hin cue hcue)) (List.ne_nil_of_mem hk)
          have hstart : 0 ≤ cue.start := hstarts cue (hin cue hcue)
          have hfinish : cue.finish ≤ last.finish := by
            rw [Cue.finish, Cue.finish, hduration, hduration']
            exact add_le_add hstart hpulse (hlast cue hcue last List.mem_cons_self)
              (right_defined hpulse)
          refine le_trans (Cue.time_le_of_mem_glow (hregular cue (hin cue hcue)) hstart ?_ hk)
            hfinish
          rw [hduration']
          exact hpulse
        · have hk' : k ∈ last.glow id := by
            rw [hkeys]
            exact List.mem_append_left _ hk
          refine Cue.time_le_of_mem_glow (hregular last hend) (hstarts last hend) ?_ hk'
          rw [hduration]
          exact hpulse

end Times

end Storyboard
