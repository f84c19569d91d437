import Storyboard.Proofs.Number.Order
import Storyboard.Proofs.Review.Naming
import Storyboard.Proofs.Script.Outline

/-!
# What is mended stays as it is

A mending goes through a mended script with the same names taken as when it went through
the script before, and finds that each name is new.  The names of the scenes are told
apart, and the cameras are within their bounds.  So there is nothing left to be mended,
whatever defects a second repair is given.
-/

namespace Storyboard

variable {α : Type}

/-! ## Cameras -/

section Cameras

variable [Scalar α] [LawfulScalar α] [FiniteOrder α]

/-- A clamped elevation is within its bounds. -/
theorem Scalar.clamp_within (phi : α) :
    ¬ (clamp 0 zenith phi < 0 ∨ zenith < clamp 0 zenith phi) := by
  have hzenith : ¬ (zenith : α) < 0 := by
    intro h
    exact (LawfulScalar.lt_iff.mp h).2 FiniteOrder.zenith_nonneg
  unfold clamp
  split_ifs with hlow hhigh
  · exact not_or.mpr ⟨FiniteOrder.not_lt_self 0, hzenith⟩
  · exact not_or.mpr ⟨hzenith, FiniteOrder.not_lt_self zenith⟩
  · exact not_or.mpr ⟨hlow, hhigh⟩

theorem Camera.repaired_repaired (path path' : String) (c : Camera α) :
    (c.repaired path).1.repaired path' = ((c.repaired path).1, []) := by
  cases c with
  | preset name =>
      by_cases hname : (Preset.ofName? name).isNone = true
      · have hstandard : (Preset.ofName? Preset.standard.name).isNone = false := by decide
        simp only [repaired, if_pos hname, hstandard]
        rfl
      · simp only [repaired, if_neg hname]
  | full shot =>
      by_cases hbounds : shot.position.phi < 0 ∨ zenith < shot.position.phi
      · simp only [repaired, if_pos hbounds, if_neg (Scalar.clamp_within _)]
      · simp only [repaired, if_neg hbounds]
  | unread raw => rfl

end Cameras

/-! ## Steps -/

namespace Mending

open Storyboard.Action

variable {m m' : Mending α}

/-- A step that has been mended is let be where the same names are taken. -/
theorem step_step (h : m'.taken = m.taken) (place : Place) (s : Step α) :
    m'.step place (m.step place s).2 =
      (⟨(m.step place s).1.taken, m'.fixes⟩, (m.step place s).2) := by
  cases hcreated : s.createdId? with
  | none =>
      obtain ⟨hs, -, htaken⟩ := m.step_of_createdId?_eq_none place hcreated
      obtain ⟨hs', hfixes', htaken'⟩ := m'.step_of_createdId?_eq_none place hcreated
      rw [hs, htaken, ← h, ← htaken', ← hfixes']
      exact Prod.ext rfl hs'
  | some id =>
      obtain ⟨color, shape, rfl⟩ := Step.eq_create_of_createdId? hcreated
      obtain ⟨name, hs, hnew, hblank, htaken, -⟩ := m.step_create place id color shape
      have hfree : ¬ m'.taken.contains name = true := by
        rw [h, List.contains_iff_mem]
        exact hnew
      rw [hs, htaken, ← h, step_create_some, if_neg (by simp [hblank]), if_neg hfree]
      rfl

/-- Steps that have been mended are let be where the same names are taken. -/
theorem handOn_handOn (h : m'.taken = m.taken) (steps : List (Place × Step α)) :
    handOn step m' (handOn step m steps).2 =
      (⟨(handOn step m steps).1.taken, m'.fixes⟩, (handOn step m steps).2) := by
  induction steps generalizing m m' with
  | nil => exact Prod.ext (congrArg (Mending.mk · m'.fixes) h) rfl
  | cons e rest ih =>
      obtain ⟨place, s⟩ := e
      have hfirst := step_step h place s
      have hrest := @ih (m.step place s).1 ⟨(m.step place s).1.taken, m'.fixes⟩ rfl
      simp only [handOn, hfirst, hrest]

theorem traverseFrom_traverseFrom (h : m'.taken = m.taken) (place : Place) (i : Nat)
    (actions : List (Action α)) :
    traverseFrom step place i m' (traverseFrom step place i m actions).2 =
      (⟨(traverseFrom step place i m actions).1.taken, m'.fixes⟩,
        (traverseFrom step place i m actions).2) := by
  obtain ⟨hstate, hsteps⟩ := locatedFrom_traverseFrom step place i m actions
  obtain ⟨hstate', hsteps'⟩ :=
    locatedFrom_traverseFrom step place i m' (traverseFrom step place i m actions).2
  rw [hsteps, handOn_handOn h] at hstate' hsteps'
  refine Prod.ext ?_ (eq_of_outlines place i (outlines_traverseFrom _ _ _ _ _) ?_)
  · rw [hstate', hstate]
  · rw [hsteps', hsteps]

end Mending

/-! ## Scenes -/

namespace Script

variable [Scalar α]

theorem repairCameras_mendScenes [LawfulScalar α] [FiniteOrder α] (names : List String)
    (m : Mending α) (i : Nat) (scenes : List (Scene α)) :
    repairCameras i (mendScenes names m i scenes) = (mendScenes names m i scenes, []) := by
  induction scenes generalizing names m i with
  | nil => rfl
  | cons s rest ih =>
      have hcamera : (s.mend names m i).2.camera.repaired (scenePath i ++ ".camera") =
          ((s.mend names m i).2.camera, []) := Camera.repaired_repaired _ _ s.camera
      simp only [mendScenes, repairCameras, hcamera, ih, List.append_nil]

theorem repairSceneIds_mendScenes (names : List String) (m : Mending α) (i : Nat)
    (scenes : List (Scene α)) :
    repairSceneIds names i (mendScenes names m i scenes) =
      (mendScenes names m i scenes, []) := by
  induction scenes generalizing names m i with
  | nil => rfl
  | cons s rest ih =>
      have hnew : ¬ names.contains (s.mend names m i).2.id = true := by
        rw [List.contains_iff_mem]
        exact s.id_mend_not_mem names m i
      simp only [mendScenes, repairSceneIds, if_neg hnew, ih]

theorem repairActions_mendScenes (names : List String) {m m' : Mending α}
    (h : m'.taken = m.taken) (i : Nat) (scenes : List (Scene α)) :
    (repairActions m' i (mendScenes names m i scenes)).1 = mendScenes names m i scenes ∧
      (repairActions m' i (mendScenes names m i scenes)).2.fixes = m'.fixes := by
  induction scenes generalizing names m m' i with
  | nil => exact ⟨rfl, rfl⟩
  | cons s rest ih =>
      have hactions : Action.traverseFrom Mending.step (Place.ofScene i) 0 m'
          (s.mend names m i).2.actions =
            (⟨(s.mend names m i).1.taken, m'.fixes⟩, (s.mend names m i).2.actions) :=
        Mending.traverseFrom_traverseFrom h (Place.ofScene i) 0 s.actions
      obtain ⟨hscenes, hfixes⟩ := @ih (names ++ [(s.mend names m i).2.id]) (s.mend names m i).1
        ⟨(s.mend names m i).1.taken, m'.fixes⟩ rfl (i + 1)
      simp only [mendScenes, repairActions, hactions, hscenes, hfixes, and_self]

variable [LawfulScalar α] [FiniteOrder α]

/-- There is nothing to mend about a mended script. -/
theorem mended_mended (s : Script α) : s.mended.1.mended = (s.mended.1, []) := by
  have hscenes := s.scenes_mended
  have hcameras : repairCameras 0 s.mended.1.scenes = (s.mended.1.scenes, []) := by
    rw [hscenes]
    exact repairCameras_mendScenes [] ⟨[], []⟩ 0 s.scenes
  have hids : repairSceneIds [] 0 s.mended.1.scenes = (s.mended.1.scenes, []) := by
    rw [hscenes]
    exact repairSceneIds_mendScenes [] ⟨[], []⟩ 0 s.scenes
  have hactions : (repairActions (⟨[], []⟩ : Mending α) 0 s.mended.1.scenes).1 =
        s.mended.1.scenes ∧
      (repairActions (⟨[], []⟩ : Mending α) 0 s.mended.1.scenes).2.fixes = [] := by
    rw [hscenes]
    exact repairActions_mendScenes [] rfl 0 s.scenes
  rw [mended, hcameras]
  simp only [hids, hactions.1, hactions.2, List.append_nil]

/--
A repair of a repaired script gives the same script again and makes no fix, whatever
defects either of them is given, so long as some of these can be mended.
-/
theorem repair_repair {s s' : Script α} {defects defects' : List (Finding Defect)}
    (h : (s.repair defects).script = some s')
    (h' : ∃ d ∈ defects', d.kind.isMendable = true) :
    (s'.repair defects').script = some s' ∧ (s'.repair defects').fixes = [] := by
  obtain ⟨rfl, -, -⟩ := repair_eq_some h
  have hany : defects'.any (fun d => d.kind.isMendable) = true := List.any_eq_true.mpr h'
  rw [repair, if_pos hany, mended_mended]
  exact ⟨rfl, rfl⟩

/-- A line from one corner to another that could not be read, for its end is a number. -/
def brokenLine (id : Option String) : Step Float :=
  .unread ⟨.obj ([("do", .str "drawLine"), ("from", .str "A")] ++
      (id.map fun id => ("id", .str id)).toList ++ [("to", .int 7)]),
    .malformed .drawLine "invalid type: integer `7`, expected a string"⟩

/--
A script of two scenes of the same name.  Three lines are to be called by one name, the
second of them in a group and the third by what could not be read, and the name that the
second is given is claimed further down.  The camera of the second scene is too high.
-/
def tangledScript : Script Float where
  title := ""
  scenes := [
    { id := "lines"
      narration := ""
      camera := .preset "below"
      actions := [
        .step (.create (some "a") none (.line "A" "B" none)),
        .together [.step (.create (some "a") none (.line "A" "C" none)), .together []],
        .step (brokenLine (some "a"))]
      measurements := none },
    { id := "lines"
      narration := ""
      camera := .full ⟨⟨2.5, 0, 120⟩, "a", .ease⟩
      actions := [
        .step (brokenLine none),
        .step (.create (some "a_2") none (.path "A" "B")),
        .step (.create none none (.line "B" "C" none)),
        .step (.highlight "nowhere" none)]
      measurements := none }]

theorem repair_repair_tangled :
    ∃ s', (tangledScript.repair
        (tangledScript.review Standards.usual plainCube).defects).script = some s' ∧
      (∃ d ∈ [(⟨.missingId, "", ""⟩ : Finding Defect)], d.kind.isMendable = true) ∧
      (s'.repair [⟨.missingId, "", ""⟩]).script = some s' ∧
      (s'.repair [⟨.missingId, "", ""⟩]).fixes = [] := by
  have hscript : (tangledScript.repair
      (tangledScript.review Standards.usual plainCube).defects).script.isSome = true := by
    decide +kernel
  have hmendable : ∃ d ∈ [(⟨.missingId, "", ""⟩ : Finding Defect)],
      d.kind.isMendable = true := ⟨_, List.mem_cons_self, rfl⟩
  obtain ⟨s', hs'⟩ := Option.isSome_iff_exists.mp hscript
  exact ⟨s', hs', hmendable, repair_repair hs' hmendable⟩

end Script

end Storyboard
