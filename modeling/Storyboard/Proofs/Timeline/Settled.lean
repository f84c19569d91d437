import Storyboard.Proofs.Timeline.Performance

/-!
# Settled scenes

The stage goes by the order in the script, the tracks by the order in time.  A scene
is settled when on every channel both orders end with the same value.  Actions that
follow one another keep both orders alike, so that only the steps of one group can
unsettle a scene, and only when two of them touch the same channel.
-/

namespace Storyboard

/-- On every channel what some cues leave latest is what the last one of them leaves. -/
def Settled {α : Type} [Scalar α] (cues : List (Cue α)) : Prop :=
  ∀ c : Channel,
    (latestBy Prod.fst (leavings c cues)).map Prod.snd =
      (leavings c cues).getLast?.map Prod.snd

section Touching

variable {α : Type} [Scalar α]

/-- A step touches a channel when its cue does. -/
def Step.touches (m : Model α) (scene : String) (s : Step α) (c : Channel) : Bool :=
  match s.effect m scene with
  | .ok effect => (⟨0, 0, effect⟩ : Cue α).touches c
  | .error _ => false

/-- No two steps of an action touch the same channel. -/
def Action.IsApart (m : Model α) (scene : String) (a : Action α) : Prop :=
  ((a.timed 0).map Prod.snd).Pairwise fun s s' =>
    ∀ c, s.touches m scene c = true → s'.touches m scene c = false

/-- Which channels a cue touches depends on its effect alone. -/
theorem Cue.touches_eq (cue : Cue α) (c : Channel) :
    cue.touches c = (⟨0, 0, cue.effect⟩ : Cue α).touches c := by
  apply isSome_firstOn_congr
  unfold leaves
  cases cue.effect with
  | create element =>
      dsimp only
      rw [List.map_cons, List.map_cons, List.map_map, List.map_map]
      rfl
  | reveal | hide | fadeIn | fadeOut | highlight | pulse | drive | fold | rest => rfl

theorem Step.touches_of_cue {m : Model α} {scene : String} {e : TimedStep α} {cue : Cue α}
    (h : Step.cue m scene e = .ok cue) (c : Channel) :
    cue.touches c = e.2.touches m scene c := by
  obtain ⟨-, -, heffect⟩ := Step.cue_eq_ok h
  rw [touches, heffect]
  exact Cue.touches_eq cue c

end Touching

section Order

variable {α : Type} [ExactScalar α]

/-- Cues are settled when those that touch the same channel follow one another. -/
theorem settled_of_pairwise {cues : List (Cue α)} (hdurations : ∀ cue ∈ cues, 0 ≤ cue.duration)
    (h : cues.Pairwise fun a b =>
      ∀ c, a.touches c = true → b.touches c = true → a.finish ≤ b.start) :
    Settled cues := by
  intro c
  have horder : (leavings c cues).Pairwise fun a b => a.1 ≤ b.1 := by
    refine List.pairwise_filterMap.mpr ((List.Pairwise.and_mem.mp h).imp ?_)
    rintro a b ⟨ha, hb, hfollows⟩ mark hmark mark' hmark'
    have htouches : a.touches c = true := Option.isSome_iff_exists.mpr ⟨mark, hmark⟩
    have htouches' : b.touches c = true := Option.isSome_iff_exists.mpr ⟨mark', hmark'⟩
    calc
      mark.1 ≤ a.finish := (Cue.time_of_leaving? (hdurations a ha) hmark).2
      _ ≤ b.start := hfollows c htouches htouches'
      _ ≤ mark'.1 := (Cue.time_of_leaving? (hdurations b hb) hmark').1
  rw [latestBy_of_pairwise horder]

namespace Scene

/-- The steps of apart actions follow one another wherever they touch the same channel. -/
theorem pairwise_timedInTurn {m : Model α} {scene : String} {start : α} (hstart : 0 ≤ start)
    {actions : List (Action α)} (h : ∀ a ∈ actions, a.IsApart m scene) :
    (Action.timedInTurn start actions).Pairwise fun e e' =>
      ∀ c, e.2.touches m scene c = true → e'.2.touches m scene c = true →
        e.1 + e.2.duration ≤ e'.1 := by
  induction actions generalizing start with
  | nil => exact List.Pairwise.nil
  | cons a rest ih =>
      obtain ⟨ha, hrest⟩ := List.forall_mem_cons.mp h
      have hnext : 0 ≤ start + a.duration := add_nonneg hstart a.duration_nonneg
      rw [Action.timedInTurn]
      refine List.pairwise_append.mpr ⟨?_, ih hnext hrest, ?_⟩
      · -- within one action no two steps touch the same channel
        have hsteps : (a.timed start).map Prod.snd = (a.timed 0).map Prod.snd := by
          rw [Action.map_snd_timed start ⟨"", []⟩ a, Action.map_snd_timed 0 ⟨"", []⟩ a]
        rw [Action.IsApart, ← hsteps] at ha
        refine (List.pairwise_map.mp ha).imp ?_
        intro e e' happart c htouches htouches'
        rw [happart c htouches] at htouches'
        cases htouches'
      · intro e he e' he' c _ _
        obtain ⟨hstart, hduration⟩ := Action.timed_bounds start a e he
        obtain ⟨hafter, -⟩ := Action.timedInTurn_bounds hnext rest e' he'
        calc
          e.1 + e.2.duration = start + e.2.duration := by rw [hstart]
          _ ≤ start + a.duration := add_le_add_right hduration start
          _ ≤ e'.1 := hafter

theorem pairwise_untilError {m : Model α} {scene : String} {steps : List (TimedStep α)}
    (h : steps.Pairwise fun e e' =>
      ∀ c, e.2.touches m scene c = true → e'.2.touches m scene c = true →
        e.1 + e.2.duration ≤ e'.1) :
    ((untilError (steps.map (Step.cue m scene))).1).Pairwise fun a b =>
      ∀ c, a.touches c = true → b.touches c = true → a.finish ≤ b.start := by
  induction steps with
  | nil => exact List.Pairwise.nil
  | cons e rest ih =>
      obtain ⟨he, hrest⟩ := List.pairwise_cons.mp h
      rw [List.map_cons]
      cases hcue : Step.cue m scene e with
      | error fault => exact List.Pairwise.nil
      | ok cue =>
          refine List.pairwise_cons.mpr ⟨?_, ih hrest⟩
          intro other hother c htouches htouches'
          obtain ⟨e', he', hcue'⟩ := List.mem_map.mp (mem_of_mem_untilError hother)
          obtain ⟨hstart, hduration, -⟩ := Step.cue_eq_ok hcue
          obtain ⟨hstart', -, -⟩ := Step.cue_eq_ok hcue'
          rw [Step.touches_of_cue hcue] at htouches
          rw [Step.touches_of_cue hcue'] at htouches'
          rw [Cue.finish, hstart, hduration, hstart']
          exact he e' he' c htouches htouches'

/-- A scene is settled when no two steps of one group touch the same channel. -/
theorem settled_of_isApart {m : Model α} {s : Scene α}
    (h : ∀ a ∈ s.actions, a.IsApart m s.id) : Settled (s.cues m) := by
  refine settled_of_pairwise duration_nonneg_of_mem_cues ?_
  exact pairwise_untilError (pairwise_timedInTurn le_rfl h)

end Scene

end Order

end Storyboard
