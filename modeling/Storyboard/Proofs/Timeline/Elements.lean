import Storyboard.Number.Written
import Storyboard.Proofs.OrderedMap
import Storyboard.Proofs.Review.Findings
import Storyboard.Proofs.Text.Trim
import Storyboard.Proofs.Timeline.Performance

/-!
# The elements of a production

A review knows an element by its name as it is written, a production registers it
under that name trimmed.  Names that differ to the review may be the same once they
are trimmed, and then the later element takes the place of the earlier one.  So a
valid script has all of its elements registered under the names by which it refers to
them exactly when these names are trimmed.
-/

namespace Storyboard

variable {α : Type}

/-- The element that a creating step asks for, under its name as it is written. -/
def Step.creation? [Scalar α] : Step α → Option (Element α)
  | create id color shape => some ⟨id.getD "", color.getD shape.standardColor, shape.form⟩
  | _ => none

/-- The elements that some steps ask for, in their order. -/
def creations [Scalar α] (steps : List (Step α)) : List (Element α) :=
  steps.filterMap Step.creation?

/-- The elements that the creating steps of a script ask for, in document order. -/
def Script.creations [Scalar α] (s : Script α) : List (Element α) :=
  Storyboard.creations (s.located.map Prod.snd)

/-- An element under its name without blanks at the ends. -/
def Element.trimmed (e : Element α) : Element α := { e with id := Text.trim e.id }

/-- The element that an effect creates. -/
def Effect.element? : Effect α → Option (Element α)
  | .create element => some element
  | _ => none

/-! ## Registering -/

namespace Registry

/-- Elements of new names are registered in their order. -/
theorem entries_foldl_register {r : Registry α} {elements : List (Element α)}
    (h : (r.keys ++ elements.map Element.id).Nodup) :
    (elements.foldl register r).entries =
      r.entries ++ elements.map fun e => (e.id, e) := by
  induction elements generalizing r with
  | nil => simp
  | cons e rest ih =>
      have hnew : e.id ∉ r.keys := by
        intro hmem
        exact (List.nodup_append.mp h).2.2 _ hmem _ List.mem_cons_self rfl
      have hentries := OrderedMap.entries_insert_of_notMem hnew e
      have hkeys : (r.register e).keys = r.keys ++ [e.id] := by
        rw [register, OrderedMap.keys_insert, if_neg hnew]
      rw [List.foldl_cons, ih, register, hentries, List.append_assoc]
      · rfl
      · rw [hkeys, List.append_assoc]
        exact h

/-- Registering elements is inserting them by their names. -/
theorem foldl_register_eq_insertAll (r : Registry α) (elements : List (Element α)) :
    elements.foldl register r = OrderedMap.insertAll r (elements.map fun e => (e.id, e)) := by
  rw [OrderedMap.insertAll, List.foldl_map]
  rfl

theorem mem_keys_foldl_register {r : Registry α} {elements : List (Element α)} {id : String} :
    id ∈ (elements.foldl register r).keys ↔ id ∈ r.keys ∨ id ∈ elements.map Element.id := by
  rw [foldl_register_eq_insertAll, OrderedMap.mem_keys_insertAll, List.map_map]
  rfl

theorem registerAll_eq (r : Registry α) (cues : List (Cue α)) :
    r.registerAll cues =
      (cues.filterMap fun cue => cue.effect.element?).foldl register r := by
  unfold registerAll
  induction cues generalizing r with
  | nil => rfl
  | cons cue rest ih =>
      rw [List.foldl_cons, ih]
      cases heffect : cue.effect <;> simp [heffect, Effect.element?]

end Registry

/-! ## The elements of the steps -/

section Creations

variable [Scalar α]

theorem creations_append (steps steps' : List (Step α)) :
    creations (steps ++ steps') = creations steps ++ creations steps' :=
  List.filterMap_append

/-- A creating step with an element has a name, which is trimmed for the element. -/
theorem Step.element_eq_ok {scene : String} {id color : Option String} {shape : Shape α}
    {e : Element α} (h : element scene id color shape = .ok e) :
    (⟨id.getD "", color.getD shape.standardColor, shape.form⟩ : Element α).trimmed = e := by
  unfold element at h
  cases id with
  | none => cases h
  | some id =>
      dsimp only [Option.map_some, Option.getD_some] at h
      split_ifs at h
      cases h
      rfl

/-- The effect of a creating step is the element that it asks for, trimmed. -/
theorem Step.element?_of_effect {m : Model α} {scene : String} {s : Step α}
    {effect : Effect α} (h : s.effect m scene = .ok effect) :
    effect.element? = s.creation?.map Element.trimmed := by
  cases s with
  | create id color shape =>
      rw [Step.effect] at h
      cases helement : element scene id color shape with
      | error fault =>
          rw [helement] at h
          cases h
      | ok e =>
          rw [helement] at h
          cases h
          exact congrArg some (element_eq_ok helement).symm
  | animatePoint target start finish duration =>
      rw [Step.effect] at h
      split at h
      · cases h
        rfl
      · cases h
  | reveal | hide | fadeIn | fadeOut | highlight | pulse | fold | wait | unread =>
      cases h
      rfl

/-- When all steps have cues the cues create what the steps ask for, trimmed. -/
theorem filterMap_element?_of_untilError {m : Model α} {scene : String}
    {steps : List (TimedStep α)} {cues : List (Cue α)}
    (h : untilError (steps.map (Step.cue m scene)) = (cues, none)) :
    cues.filterMap (fun cue => cue.effect.element?) =
      (creations (steps.map Prod.snd)).map Element.trimmed := by
  induction steps generalizing cues with
  | nil =>
      cases h
      rfl
  | cons e rest ih =>
      rw [List.map_cons, Step.cue] at h
      cases heffect : e.2.effect m scene with
      | error fault =>
          rw [heffect] at h
          cases h
      | ok effect =>
          rw [heffect] at h
          have hcons : ((⟨e.1, e.2.duration, effect⟩ : Cue α) ::
              (untilError (rest.map (Step.cue m scene))).1,
                (untilError (rest.map (Step.cue m scene))).2) = (cues, none) := h
          obtain ⟨rfl, hnone⟩ := Prod.mk.inj hcons
          have hrest := ih (Prod.ext rfl hnone)
          have hhead := Step.element?_of_effect heffect
          rw [List.filterMap_cons, hhead, hrest, List.map_cons]
          cases hcreation : e.2.creation? <;> simp [creations, hcreation]

end Creations

/-! ## The registry of a production -/

/-- A scene that is produced registers what it asks for, under trimmed names. -/
theorem Scene.registry_of_produce [Analytic α] {timing : Timing α} {fig : Figure α} {start : α}
    {stage : Stage α} {registry : Registry α} {s : Scene α} (i : Nat) {produced : Produced α}
    (h : s.produce timing fig start stage registry = .ok produced) :
    produced.registry =
      ((Storyboard.creations ((s.located i).map Prod.snd)).map Element.trimmed).foldl
        Registry.register registry := by
  obtain ⟨hcues, -, -, -, -, hregistry⟩ := Scene.produce_eq_ok h
  have hsteps : s.timedSteps.map Prod.snd = (s.located i).map Prod.snd :=
    Action.map_snd_timedInTurn 0 (Place.ofScene i) 0 s.actions
  rw [hregistry, Registry.registerAll_eq, filterMap_element?_of_untilError hcues, hsteps]

namespace Script

variable [Analytic α]

theorem registry_of_produceFrom {timing : Timing α} {fig : Figure α} {start : α}
    {stage : Stage α} {registry : Registry α} {scenes : List (Scene α)} (i : Nat)
    {production : Production α}
    (h : produceFrom timing fig start stage registry scenes = .ok production) :
    production.registry =
      ((Storyboard.creations (((scenes.zipIdx i).flatMap fun (s, j) =>
        s.located j).map Prod.snd)).map Element.trimmed).foldl Registry.register registry := by
  induction scenes generalizing start stage registry i production with
  | nil =>
      cases h
      rfl
  | cons s rest ih =>
      rw [produceFrom] at h
      split at h
      next => cases h
      next produced hproduce =>
        split at h
        next => cases h
        next rested hrest =>
          cases h
          rw [ih (i + 1) hrest, Scene.registry_of_produce i hproduce, ← List.foldl_append,
            ← List.map_append, ← creations_append, ← List.map_append, List.zipIdx_cons,
            List.flatMap_cons]

/-- The registry of a production holds what its script asks for, under trimmed names. -/
theorem registry_of_produce {timing : Timing α} {m : Model α} {s : Script α}
    {production : Production α} (h : s.produce timing m = .ok production) :
    production.registry =
      (s.creations.map Element.trimmed).foldl Registry.register OrderedMap.empty := by
  rw [produce] at h
  split at h
  next => cases h
  next => exact registry_of_produceFrom 0 h

end Script

/-! ## The names that a review knows -/

section Review

variable [Scalar α] [NumberText α] {refs : References}

/-- A step without defects claims the name of what it creates, which is new. -/
theorem Step.claimed_of_defects_eq_nil {created : List String} {place : Place} {s : Step α}
    (h : s.defects refs created place = []) (hnodup : created.Nodup) :
    s.claimed created = created ++ (s.creation?.toList.map Element.id) ∧
      (s.claimed created).Nodup := by
  obtain ⟨hclaim, hother⟩ := List.append_eq_nil_iff.mp h
  cases s with
  | create id color shape =>
      cases id with
      | none => cases hclaim
      | some id =>
          cases hblank : Text.isBlank id with
          | true =>
              simp [claimDefects, claim?, Option.filter, hblank] at hclaim
          | false =>
              have hnew : id ∉ created := by
                intro hmem
                simp [claimDefects, claim?, Option.filter, hblank, Finding.when, hmem] at hclaim
              have hclaimed : (Step.create (some id) color shape).claimed created =
                  created ++ [id] := by
                simp [claimed, claim?, hblank, hnew]
              refine ⟨hclaimed, ?_⟩
              rw [hclaimed]
              exact List.nodup_append.mpr ⟨hnodup, List.nodup_singleton id,
                fun a ha b hb heq => hnew (List.mem_singleton.mp hb ▸ heq ▸ ha)⟩
  | unread u => cases hother
  | reveal | hide | fadeIn | fadeOut | highlight | pulse | animatePoint | fold | wait =>
      exact ⟨(List.append_nil created).symm, hnodup⟩

theorem Progress.created_of_reviewSteps_eq_nil {scope : Progress}
    {steps : List (Place × Step α)} (h : (scope.reviewSteps refs steps).defects = [])
    (hnodup : scope.created.Nodup) :
    (scope.reviewSteps refs steps).created =
        scope.created ++ (creations (steps.map Prod.snd)).map Element.id ∧
      (scope.reviewSteps refs steps).created.Nodup := by
  induction steps generalizing scope with
  | nil => exact ⟨(List.append_nil _).symm, hnodup⟩
  | cons e rest ih =>
      have hstep : (scope.review refs e).defects = [] :=
        List.subset_nil.mp (h ▸ defects_subset_reviewSteps (scope.review refs e) rest)
      obtain ⟨-, hdefects⟩ := List.append_eq_nil_iff.mp hstep
      obtain ⟨hclaimed, hnew⟩ := Step.claimed_of_defects_eq_nil hdefects hnodup
      obtain ⟨hcreated, hall⟩ := ih h hnew
      refine ⟨?_, hall⟩
      change (reviewSteps refs (scope.review refs e) rest).created = _
      rw [hcreated]
      change e.2.claimed scope.created ++ _ = _
      rw [hclaimed, List.append_assoc, ← List.map_append]
      cases hcreation : e.2.creation? <;> simp [creations, hcreation]

theorem Script.created_of_reviewFrom_eq_nil {earlier : List String} {scope : Progress}
    {i : Nat} {scenes : List (Scene α)}
    (h : (reviewFrom refs earlier scope i scenes).defects = [])
    (hnodup : scope.created.Nodup) :
    (reviewFrom refs earlier scope i scenes).created =
        scope.created ++ (Storyboard.creations (((scenes.zipIdx i).flatMap fun (s, j) =>
          s.located j).map Prod.snd)).map Element.id ∧
      (reviewFrom refs earlier scope i scenes).created.Nodup := by
  induction scenes generalizing earlier scope i with
  | nil => exact ⟨(List.append_nil _).symm, hnodup⟩
  | cons s rest ih =>
      have hscene : (s.review refs earlier scope i).defects = [] :=
        List.subset_nil.mp (h ▸ defects_subset_reviewFrom _ _ _ rest)
      obtain ⟨hclaimed, hnew⟩ := Progress.created_of_reviewSteps_eq_nil hscene hnodup
      obtain ⟨hcreated, hall⟩ := ih h hnew
      refine ⟨?_, hall⟩
      rw [reviewFrom, hcreated, List.zipIdx_cons, List.flatMap_cons, List.map_append,
        creations_append, List.map_append, ← List.append_assoc]
      exact congrArg (· ++ _) hclaimed

theorem Script.created_of_valid {standards : Standards α} {m : Model α} {s : Script α}
    (h : (s.review standards m).valid = true) :
    (reviewFrom (References.ofModel m) [] Progress.empty 0 s.scenes).created =
        s.creations.map Element.id ∧
      (s.creations.map Element.id).Nodup := by
  have hnil : (reviewFrom (References.ofModel m) [] Progress.empty 0 s.scenes).defects = [] :=
    List.isEmpty_iff.mp h
  obtain ⟨hcreated, hnodup⟩ := created_of_reviewFrom_eq_nil hnil List.nodup_nil
  rw [hcreated] at hnodup ⊢
  exact ⟨rfl, hnodup⟩

end Review

/-! ## Both names of an element -/

namespace Script

/--
When a script is valid and is produced, the review knows one name for each creating
step, all of them different.  The production has registered each element under that
name, in document order, exactly when none of the names has a blank at its ends.
-/
theorem registry_eq_creations_iff [Analytic α] [NumberText α] {standards : Standards α}
    {timing : Timing α} {m : Model α} {s : Script α} {production : Production α}
    (hvalid : (s.review standards m).valid = true)
    (h : s.produce timing m = .ok production) :
    (reviewFrom (References.ofModel m) [] Progress.empty 0 s.scenes).created =
        s.creations.map Element.id ∧
      (s.creations.map Element.id).Nodup ∧
      (production.registry.entries = (s.creations.map fun e => (e.id, e)) ↔
        ∀ e ∈ s.creations, Text.trim e.id = e.id) := by
  obtain ⟨hcreated, hnodup⟩ := created_of_valid hvalid
  refine ⟨hcreated, hnodup, ?_⟩
  have hregistry := registry_of_produce h
  constructor
  · -- a name under which an element is registered has been trimmed
    intro hentries e he
    have hkey : e.id ∈ production.registry.keys := by
      rw [OrderedMap.keys, hentries]
      exact List.mem_map.mpr ⟨(e.id, e), List.mem_map.mpr ⟨e, he, rfl⟩, rfl⟩
    rw [hregistry] at hkey
    rcases Registry.mem_keys_foldl_register.mp hkey with hnone | hname
    · exact absurd hnone List.not_mem_nil
    · obtain ⟨trimmed, htrimmed, hid⟩ := List.mem_map.mp hname
      obtain ⟨other, -, rfl⟩ := List.mem_map.mp htrimmed
      rw [← hid]
      exact Text.trim_trim other.id
  · intro htrim
    have hmap : s.creations.map Element.trimmed = s.creations :=
      calc
        s.creations.map Element.trimmed = s.creations.map id :=
          List.map_congr_left fun e he => by rw [Element.trimmed, htrim e he, id]
        _ = s.creations := List.map_id _
    rw [hregistry, hmap, Registry.entries_foldl_register]
    · rfl
    · exact hnodup

/-- A scene that draws one diagonal of the square and then the other. -/
def diagonalsScene (first second : String) : Scene Float where
  id := "diagonals"
  narration := ""
  camera := Camera.standard
  actions :=
    [.step (.create (some first) none (.line "A" "C" none)),
      .step (.create (some second) none (.line "B" "D" none))]
  measurements := none

/-- A script of both diagonals and nothing else. -/
def diagonalsScript (first second : String) : Script Float :=
  ⟨"", [diagonalsScene first second]⟩

theorem exists_produce_diagonals {first second : String}
    (hcues : (untilError ((diagonalsScene first second).timedSteps.map
      (Step.cue plainSquare "diagonals"))).2 = none) :
    ∃ production, (diagonalsScript first second).produce Timing.usual plainSquare =
      .ok production := by
  obtain ⟨production, -, h, -⟩ := exists_performance_of_single Timing.usual
    (m := plainSquare) (s := diagonalsScript first second) rfl rfl
    (Scene.exists_produce_eq_ok Timing.usual 0 _ (s := diagonalsScene first second) rfl rfl
      hcues)
  exact ⟨production, h⟩

/-- A script whose names are trimmed is produced with all of its elements. -/
theorem registry_eq_creations_iff_diagonals :
    ∃ production, (diagonalsScript "a" "b").produce Timing.usual plainSquare =
        .ok production ∧
      ((diagonalsScript "a" "b").review Standards.usual plainSquare).valid = true ∧
      production.registry.entries =
        ((diagonalsScript "a" "b").creations.map fun e => (e.id, e)) := by
  have hvalid : ((diagonalsScript "a" "b").review Standards.usual plainSquare).valid = true := by
    decide +kernel
  obtain ⟨production, h⟩ := @exists_produce_diagonals "a" "b" (by decide +kernel)
  refine ⟨production, h, hvalid, (registry_eq_creations_iff hvalid h).2.2.mpr ?_⟩
  decide +kernel

/-- Two names that differ by a blank are valid, and the second element replaces the first. -/
theorem exists_registry_ne_creations :
    ((diagonalsScript "a" " a").review Standards.usual plainSquare).valid = true ∧
      (diagonalsScript "a" " a").creations.map Element.id = ["a", " a"] ∧
      ∃ production, (diagonalsScript "a" " a").produce Timing.usual plainSquare =
          .ok production ∧
        production.registry.keys = ["a"] := by
  refine ⟨by decide +kernel, by decide +kernel, ?_⟩
  obtain ⟨production, h⟩ := @exists_produce_diagonals "a" " a" (by decide +kernel)
  refine ⟨production, h, ?_⟩
  rw [registry_of_produce h]
  decide +kernel

end Script

end Storyboard
