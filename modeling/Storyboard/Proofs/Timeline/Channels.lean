import Storyboard.Proofs.Timeline.Glow

/-!
# The channels that are written to

Which channels an action writes to can be told without playing it.  A step that
animates a point writes to the parameter that drives the point, a creating step to
the element of its name, and a group to whatever its members write to.

The channels of a cue are exactly those to which it writes a keyframe.  Elsewhere it
changes nothing on the stage, it holds no highlight, and it creates nothing.
-/

namespace Storyboard

open Track

/-- The channels that an effect writes to. -/
def Effect.channels {α : Type} : Effect α → List Channel
  | reveal target | hide target => [⟨.visibility, target⟩]
  | fadeIn target | fadeOut target => [⟨.visibility, target⟩, ⟨.opacity, target⟩]
  | highlight target _ | pulse target _ _ => [⟨.highlight, target⟩]
  | create element =>
    ⟨.visibility, element.id⟩ ::
      element.form.opacity?.toList.map fun _ => ⟨.opacity, element.id⟩
  | drive parameter _ _ => [⟨.parameter, parameter⟩]
  | fold id _ _ => [⟨.angle, id⟩]
  | rest => []

/-- The channels that a step writes to, given the model it plays on. -/
def Step.channels {α : Type} (m : Model α) : Step α → List Channel
  | reveal target | hide target => [⟨.visibility, target⟩]
  | fadeIn target _ | fadeOut target _ => [⟨.visibility, target⟩, ⟨.opacity, target⟩]
  | highlight target _ | pulse target _ _ => [⟨.highlight, target⟩]
  | create id _ shape =>
    let name := (id.map Text.trim).getD ""
    match shape with
    | .line .. | .path .. => [⟨.visibility, name⟩]
    | .plane .. | .tetrahedron .. => [⟨.visibility, name⟩, ⟨.opacity, name⟩]
  | animatePoint target _ _ _ =>
    (m.drivingParameter? target).toList.map fun parameter => ⟨.parameter, parameter⟩
  | fold id _ _ _ => [⟨.angle, id⟩]
  | wait _ | unread _ => []

namespace Action

variable {α : Type}

mutual

/-- The channels that an action writes to. -/
def channels (m : Model α) : Action α → List Channel
  | .step s => s.channels m
  | .together actions => channelsOf m actions

/-- The channels that some actions write to. -/
def channelsOf (m : Model α) : List (Action α) → List Channel
  | [] => []
  | a :: rest => channels m a ++ channelsOf m rest

end

end Action

/-- The channels that the actions of a scene write to. -/
def Scene.channels {α : Type} (m : Model α) (s : Scene α) : List Channel :=
  Action.channelsOf m s.actions

/-! ## From actions to cues -/

/-- What a step does goes to the channels of the step. -/
theorem Step.channels_of_effect {α : Type} [Scalar α] {m : Model α} {scene : String} {s : Step α}
    {effect : Effect α} (h : s.effect m scene = .ok effect) : effect.channels = s.channels m := by
  cases s with
  | create id color shape =>
      rw [Step.effect] at h
      cases helement : element scene id color shape with
      | error fault =>
          rw [helement] at h
          cases h
      | ok found =>
          rw [helement] at h
          cases h
          unfold element at helement
          dsimp only at helement
          split_ifs at helement
          cases helement
          cases shape <;> rfl
  | animatePoint target start finish duration =>
      rw [Step.effect] at h
      rw [Step.channels]
      split at h
      next parameter hparameter =>
        cases h
        rw [hparameter]
        rfl
      next => cases h
  | reveal | hide | fadeIn | fadeOut | highlight | pulse | fold | wait | unread =>
      cases h
      rfl

namespace Action

variable {α : Type}

mutual

theorem mem_channels {m : Model α} {c : Channel} (start : α) (a : Action α) :
    c ∈ a.channels m ↔ ∃ e ∈ a.timed start, c ∈ e.2.channels m := by
  cases a with
  | step s => simp [channels, timed]
  | together actions =>
      rw [channels, timed]
      exact mem_channelsOf start actions

theorem mem_channelsOf {m : Model α} {c : Channel} (start : α) (actions : List (Action α)) :
    c ∈ channelsOf m actions ↔ ∃ e ∈ timedTogether start actions, c ∈ e.2.channels m := by
  cases actions with
  | nil => simp [channelsOf, timedTogether]
  | cons a rest =>
      rw [channelsOf, timedTogether, List.mem_append, mem_channels start a,
        mem_channelsOf start rest]
      simp only [List.mem_append, or_and_right, exists_or]

end

/-- Whether actions play together or in turn, they write to the channels of their steps. -/
theorem mem_channelsOf_timedInTurn [Scalar α] {m : Model α} {c : Channel} (start : α)
    (actions : List (Action α)) :
    c ∈ channelsOf m actions ↔ ∃ e ∈ timedInTurn start actions, c ∈ e.2.channels m := by
  induction actions generalizing start with
  | nil => simp [channelsOf, timedInTurn]
  | cons a rest ih =>
      rw [channelsOf, timedInTurn, List.mem_append, mem_channels start a,
        ih (start + a.duration)]
      simp only [List.mem_append, or_and_right, exists_or]

end Action

/-- The cues of a scene write to no other channels than its actions. -/
theorem Scene.channels_of_mem_cues {α : Type} [Scalar α] {m : Model α} {s : Scene α}
    {cue : Cue α} (h : cue ∈ s.cues m) {c : Channel} (hc : c ∈ cue.effect.channels) :
    c ∈ s.channels m := by
  obtain ⟨e, he, hcue⟩ := List.mem_map.mp (mem_of_mem_untilError h)
  obtain ⟨-, -, heffect⟩ := Step.cue_eq_ok hcue
  rw [Step.channels_of_effect heffect] at hc
  exact (Action.mem_channelsOf_timedInTurn 0 s.actions).mpr ⟨e, he, hc⟩

/-! ## What a cue does on its channels and elsewhere -/

namespace Cue

variable {α : Type} [Scalar α] {c : Channel}

theorem pulseKeys_ne_nil (start duration : α) (color : String) (repetitions : Nat) :
    pulseKeys start duration color repetitions ≠ [] := by
  simp [pulseKeys]

/-- The channels of a cue are those to which it writes something. -/
theorem keysOf_writes_eq_nil_iff {stage : Stage α} {cue : Cue α} :
    keysOf c (cue.writes stage) = [] ↔ c ∉ cue.effect.channels := by
  unfold writes Effect.channels
  cases cue.effect with
  | create element =>
      cases hopacity : element.form.opacity? <;>
        simp only [hopacity, Option.toList_none, Option.toList_some, List.map_nil,
          List.map_cons, keysOf_cons, keysOf_nil, List.mem_cons, List.not_mem_nil, or_false] <;>
        split_ifs <;> simp_all [eq_comm]
  | pulse target color repetitions =>
      dsimp only
      rw [keysOf_map_key, List.mem_singleton]
      split_ifs with hc
      · exact iff_of_false (pulseKeys_ne_nil _ _ _ _) (not_not_intro hc.symm)
      · exact iff_of_true rfl (Ne.symm hc)
  | reveal | hide | fadeIn | fadeOut | highlight | drive | fold =>
      simp only [keysOf_cons, keysOf_nil, List.mem_cons, List.not_mem_nil, or_false]
      split_ifs <;> simp_all [eq_comm]
  | rest => simp

/-- What a cue leaves stands on its channels. -/
theorem leaving?_eq_none {cue : Cue α} (h : c ∉ cue.effect.channels) :
    cue.leaving? c = none := by
  have hleaves : ∀ e ∈ cue.leaves, e.1 ∈ cue.effect.channels := by
    unfold leaves Effect.channels
    cases cue.effect with
    | create element =>
        cases hopacity : element.form.opacity? <;> simp [hopacity]
    | reveal | hide | fadeIn | fadeOut | highlight | pulse | drive | fold | rest => simp
  rw [Option.eq_none_iff_forall_ne_some]
  intro mark hmark
  exact h (hleaves _ (mem_of_firstOn hmark))

/-- Off the channels of a cue the stage stays as it is. -/
theorem value?_after_of_notMem {cue : Cue α} (h : c ∉ cue.effect.channels) (stage : Stage α) :
    (stage.after cue.effect).value? c = stage.value? c := by
  rw [value?_after, leaving?_eq_none h]

end Cue

/-- Nothing is written to a channel that no cue writes to. -/
theorem Stage.keysOf_follow_eq_nil {α : Type} [Scalar α] {cues : List (Cue α)} {c : Channel}
    (h : ∀ cue ∈ cues, c ∉ cue.effect.channels) (stage : Stage α) :
    keysOf c (stage.follow cues).2 = [] := by
  apply keysOf_eq_nil
  rintro w hw rfl
  obtain ⟨cue, hcue, found, hwrites⟩ := mem_follow hw
  have hkey : w.2 ∈ keysOf w.1 (cue.writes found) := mem_keysOf.mpr hwrites
  rw [Cue.keysOf_writes_eq_nil_iff.mpr (h cue hcue)] at hkey
  exact absurd hkey List.not_mem_nil

/-! ## What cues hold and create -/

section Named

variable {α : Type}

/-- The element of a name that an effect creates. -/
def Effect.elementOf? (id : String) : Effect α → Option (Element α)
  | .create element => if element.id = id then some element else none
  | _ => none

theorem Effect.highlightOf?_eq_none {id : String} {effect : Effect α}
    (h : ⟨.highlight, id⟩ ∉ effect.channels) : effect.highlightOf? id = none := by
  cases effect with
  | highlight target color =>
      have hne : ¬ target = id := by
        rintro rfl
        exact h List.mem_cons_self
      exact if_neg hne
  | reveal | hide | fadeIn | fadeOut | pulse | create | drive | fold | rest => rfl

theorem Effect.elementOf?_eq_none {id : String} {effect : Effect α}
    (h : ⟨.visibility, id⟩ ∉ effect.channels) : effect.elementOf? id = none := by
  cases effect with
  | create element =>
      have hne : ¬ element.id = id := by
        rintro rfl
        exact h List.mem_cons_self
      exact if_neg hne
  | reveal | hide | fadeIn | fadeOut | highlight | pulse | drive | fold | rest => rfl

/-- Of several elements of a name the last one is registered. -/
theorem Registry.get?_registerAll (r : Registry α) (cues : List (Cue α)) (id : String) :
    (r.registerAll cues).get? id =
      (cues.filterMap fun cue => cue.effect.elementOf? id).getLast?.or (r.get? id) := by
  unfold registerAll
  induction cues using List.reverseRecOn with
  | nil => rfl
  | append_singleton front last ih =>
      rw [List.foldl_append, List.filterMap_append, List.getLast?_append, Option.or_assoc, ← ih]
      simp only [List.foldl_cons, List.foldl_nil]
      cases heffect : last.effect with
      | create element =>
          simp only [register, OrderedMap.get?_insert, List.filterMap_cons, List.filterMap_nil,
            heffect, Effect.elementOf?, eq_comm (a := id)]
          split_ifs <;> rfl
      | reveal | hide | fadeIn | fadeOut | highlight | pulse | drive | fold | rest =>
          simp [heffect, Effect.elementOf?]

end Named

end Storyboard
