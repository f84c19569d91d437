import Storyboard.Proofs.Review.Creators
import Storyboard.Proofs.Review.Paths

/-!
# A review is a scan

A review goes down into the groups of each scene and hands on the names that have been
claimed.  It finds what is found by going once through the list of all steps and looking
back, for each of them, at the steps before it.  So an element is there for a step, or
for the camera of a scene, exactly when a step further up or in a scene before claims
its name.
-/

namespace Storyboard

variable {α : Type}

/-! ## Claimed names -/

namespace Step

/-- The names that some steps claim, blank ones left out. -/
def names (steps : List (Place × Step α)) : List String :=
  steps.filterMap fun e => e.2.claimedName?.filter fun id => !Text.isBlank id

theorem mem_names {steps : List (Place × Step α)} {id : String} :
    id ∈ names steps ↔
      ∃ e ∈ steps, e.2.claimedName? = some id ∧ Text.isBlank id = false := by
  simp [names, Option.filter_eq_some_iff]

theorem names_append (steps steps' : List (Place × Step α)) :
    names (steps ++ steps') = names steps ++ names steps' :=
  List.filterMap_append

theorem claimedName?_eq_some_iff {s : Step α} {id : String} :
    s.claimedName? = some id ↔ ∃ verb, s.claim? = some (some id, verb) := by
  simp [claimedName?, Option.bind_eq_some_iff]

/-- What is claimed after a step is what was claimed before and the name of the step. -/
theorem mem_claimed_iff_mem_names {created : List String} {steps : List (Place × Step α)}
    (h : ∀ id, id ∈ created ↔ id ∈ names steps) (e : Place × Step α) (id : String) :
    id ∈ e.2.claimed created ↔ id ∈ names (steps ++ [e]) := by
  rw [mem_claimed, h, names_append, List.mem_append, @mem_names _ [e]]
  simp only [List.mem_singleton, exists_eq_left, claimedName?_eq_some_iff, exists_and_right]

end Step

/-! ## Names in any order -/

section Congruence

variable {created created' : List String} (h : ∀ id, id ∈ created ↔ id ∈ created')

include h

theorem contains_congr (id : String) : created.contains id = created'.contains id := by
  rw [Bool.eq_iff_iff, List.contains_iff_mem, List.contains_iff_mem]
  exact h id

variable [Scalar α] [NumberText α] {refs : References}

theorem Step.defects_congr (place : Place) (s : Step α) :
    s.defects refs created place = s.defects refs created' place := by
  have hcontains := contains_congr h
  have htarget : ∀ target, targetDefects refs created place target =
      targetDefects refs created' place target := by
    intro target
    simp only [targetDefects, isTarget, hcontains]
  have hclaim : s.claimDefects created place = s.claimDefects created' place := by
    simp only [claimDefects, hcontains]
  have hother : s.otherDefects refs created place = s.otherDefects refs created' place := by
    cases s <;> simp only [otherDefects, htarget]
  rw [defects, defects, hclaim, hother]

theorem Scene.openingDefects_congr (earlier : List String) (i : Nat) (s : Scene α) :
    s.openingDefects refs earlier created i = s.openingDefects refs earlier created' i := by
  have hcamera : s.camera.defects refs created (scenePath i ++ ".camera") =
      s.camera.defects refs created' (scenePath i ++ ".camera") := by
    cases s.camera <;> simp only [Camera.defects, contains_congr h]
  rw [openingDefects, openingDefects, hcamera]

end Congruence

theorem Script.locatedFrom_append (i : Nat) (scenes scenes' : List (Scene α)) :
    locatedFrom i (scenes ++ scenes') =
      locatedFrom i scenes ++ locatedFrom (i + scenes.length) scenes' := by
  rw [locatedFrom, List.zipIdx_append, List.flatMap_append]
  rfl

variable [Scalar α] [NumberText α] {refs : References}

/-! ## The walk -/

namespace Progress

mutual

/-- Reviews an action, going down into a group where it stands. -/
def walk (refs : References) (place : Place) (scope : Progress) : Action α → Progress
  | .step s => scope.review refs (place, s)
  | .together actions => walkFrom refs place 0 scope actions

/-- Reviews the members of a group from the `i`-th on, one after the other. -/
def walkFrom (refs : References) (place : Place) (i : Nat) (scope : Progress) :
    List (Action α) → Progress
  | [] => scope
  | a :: rest => walkFrom refs place (i + 1) (walk refs (place.child i) scope a) rest

end

mutual

theorem walk_eq (place : Place) (scope : Progress) (a : Action α) :
    walk refs place scope a = scope.reviewSteps refs (Action.located place a) := by
  cases a with
  | step s =>
      rw [walk, Action.located]
      rfl
  | together actions =>
      rw [walk, Action.located]
      exact walkFrom_eq place 0 scope actions

/-- To go down into groups is to go through the steps in document order. -/
theorem walkFrom_eq (place : Place) (i : Nat) (scope : Progress)
    (actions : List (Action α)) :
    walkFrom refs place i scope actions =
      scope.reviewSteps refs (Action.locatedFrom place i actions) := by
  cases actions with
  | nil =>
      rw [walkFrom, Action.locatedFrom]
      rfl
  | cons a rest =>
      rw [walkFrom, Action.locatedFrom, walk_eq, walkFrom_eq]
      exact List.foldl_append.symm

end

end Progress

namespace Script

/-- Reviews the scenes from the `i`-th on, each before its actions and then the actions. -/
def walkFrom (refs : References) (earlier : List String) (scope : Progress) (i : Nat) :
    List (Scene α) → Progress
  | [] => scope
  | s :: rest =>
    walkFrom refs (earlier ++ [s.id])
      (Progress.walkFrom refs (Place.ofScene i) 0
        (scope.add (s.openingDefects refs earlier scope.created i)) s.actions)
      (i + 1) rest

theorem walkFrom_eq (earlier : List String) (scope : Progress) (i : Nat)
    (scenes : List (Scene α)) :
    walkFrom refs earlier scope i scenes = reviewFrom refs earlier scope i scenes := by
  induction scenes generalizing earlier scope i with
  | nil => rfl
  | cons s rest ih =>
      rw [walkFrom, ih, Progress.walkFrom_eq]
      rfl

end Script

/-! ## The scan -/

/-- The defects of some steps, each in view of those before it. -/
def Step.scan (refs : References) (before : List (Place × Step α)) :
    List (Place × Step α) → List (Finding Defect)
  | [] => []
  | e :: rest => e.2.defects refs (names before) e.1 ++ scan refs (before ++ [e]) rest

theorem Step.mem_scan {before steps : List (Place × Step α)} {d : Finding Defect} :
    d ∈ scan refs before steps ↔ ∃ front e back, steps = front ++ e :: back ∧
      d ∈ e.2.defects refs (names (before ++ front)) e.1 := by
  induction steps generalizing before with
  | nil => simp [scan]
  | cons e rest ih =>
      rw [scan, List.mem_append, ih]
      constructor
      · rintro (h | ⟨front, e', back, rfl, h⟩)
        · refine ⟨[], e, rest, rfl, ?_⟩
          rw [List.append_nil]
          exact h
        · refine ⟨e :: front, e', back, rfl, ?_⟩
          rw [List.append_assoc] at h
          exact h
      · rintro ⟨front, e', back, hsplit, h⟩
        cases front with
        | nil =>
            obtain ⟨rfl, rfl⟩ := List.cons.inj hsplit
            rw [List.append_nil] at h
            exact Or.inl h
        | cons first front =>
            obtain ⟨rfl, rfl⟩ := List.cons.inj hsplit
            refine Or.inr ⟨front, e', back, rfl, ?_⟩
            rw [List.append_assoc]
            exact h

/-- A review of some steps finds what their scan finds. -/
theorem Progress.defects_reviewSteps {scope : Progress} {before : List (Place × Step α)}
    (h : ∀ id, id ∈ scope.created ↔ id ∈ Step.names before) (steps : List (Place × Step α)) :
    (scope.reviewSteps refs steps).defects = scope.defects ++ Step.scan refs before steps ∧
      ∀ id, id ∈ (scope.reviewSteps refs steps).created ↔
        id ∈ Step.names (before ++ steps) := by
  induction steps generalizing scope before with
  | nil =>
      refine ⟨(List.append_nil _).symm, fun id => ?_⟩
      rw [List.append_nil]
      exact h id
  | cons e rest ih =>
      have hclaimed : ∀ id, id ∈ (scope.review refs e).created ↔
          id ∈ Step.names (before ++ [e]) := Step.mem_claimed_iff_mem_names h e
      obtain ⟨hdefects, hcreated⟩ := ih hclaimed
      constructor
      · rw [Step.scan, ← List.append_assoc, ← Step.defects_congr h]
        exact hdefects
      · intro id
        rw [List.append_cons]
        exact hcreated id

namespace Script

/--
The defects of a script: scene by scene those before its actions, in view of the scenes
before, and those of its steps, in view of all steps before.
-/
def scan (refs : References) (s : Script α) : List (Finding Defect) :=
  s.scenes.zipIdx.flatMap fun (scene, i) =>
    scene.openingDefects refs ((s.scenes.take i).map Scene.id)
        (Step.names (locatedFrom 0 (s.scenes.take i))) i ++
      Step.scan refs (locatedFrom 0 (s.scenes.take i)) (scene.located i)

theorem defects_reviewFrom {s : Script α} {front rest : List (Scene α)}
    (hscenes : s.scenes = front ++ rest) {scope : Progress}
    (h : ∀ id, id ∈ scope.created ↔ id ∈ Step.names (locatedFrom 0 front)) :
    (reviewFrom refs (front.map Scene.id) scope front.length rest).defects =
      scope.defects ++ (rest.zipIdx front.length).flatMap fun (scene, i) =>
        scene.openingDefects refs ((s.scenes.take i).map Scene.id)
            (Step.names (locatedFrom 0 (s.scenes.take i))) i ++
          Step.scan refs (locatedFrom 0 (s.scenes.take i)) (scene.located i) := by
  induction rest generalizing front scope with
  | nil => exact (List.append_nil _).symm
  | cons scene rest ih =>
      have htake : s.scenes.take front.length = front := by
        rw [hscenes]
        exact List.take_left
      have hopening : ∀ id, id ∈ (scope.add (scene.openingDefects refs (front.map Scene.id)
          scope.created front.length)).created ↔ id ∈ Step.names (locatedFrom 0 front) := h
      obtain ⟨hdefects, hcreated⟩ := Progress.defects_reviewSteps hopening
        (scene.located front.length)
      have hnext : ∀ id, id ∈ (scene.review refs (front.map Scene.id) scope
          front.length).created ↔ id ∈ Step.names (locatedFrom 0 (front ++ [scene])) := by
        intro id
        rw [locatedFrom_append, Nat.zero_add]
        have hone : locatedFrom front.length [scene] = scene.located front.length :=
          List.append_nil _
        rw [hone]
        exact hcreated id
      have hsplit : s.scenes = (front ++ [scene]) ++ rest := by
        rw [hscenes, List.append_cons]
      have hrest := ih hsplit hnext
      rw [List.map_append, List.length_append] at hrest
      rw [reviewFrom, List.zipIdx_cons, List.flatMap_cons]
      refine hrest.trans ?_
      rw [← List.append_assoc]
      congr 1
      dsimp only
      rw [htake, ← Scene.openingDefects_congr h, ← List.append_assoc]
      exact hdefects

theorem defects_review (standards : Standards α) (m : Model α) (s : Script α) :
    (s.review standards m).defects = s.scan (References.ofModel m) := by
  have hempty : ∀ id, id ∈ Progress.empty.created ↔
      id ∈ Step.names (locatedFrom 0 ([] : List (Scene α))) := fun _ => Iff.rfl
  exact defects_reviewFrom (List.nil_append _).symm hempty

end Script

/-! ## Steps before a step -/

namespace Script

variable {s : Script α}

omit [Scalar α] [NumberText α] in
/-- A place parts the steps of a script in one way only. -/
theorem split_unique {front front' back back' : List (Place × Step α)} {e e' : Place × Step α}
    (h : s.located = front ++ e :: back) (h' : s.located = front' ++ e' :: back')
    (hplace : e.1 = e'.1) : front = front' ∧ e = e' := by
  have he : e ∈ s.located := List.mem_iff_append.mpr ⟨_, _, h⟩
  have he' : e' ∈ s.located := List.mem_iff_append.mpr ⟨_, _, h'⟩
  have hsame : e = e' := List.inj_on_of_nodup_map s.nodup_located he he' hplace
  subst hsame
  have hnodup : (front ++ e :: back).Nodup := h ▸ s.nodup_located.of_map _
  obtain ⟨-, hback, hfront⟩ := List.nodup_append.mp hnodup
  have hnotFront : e ∉ front := fun hmem => hfront e hmem e List.mem_cons_self rfl
  have hnotBack : e ∉ back := (List.nodup_cons.mp hback).1
  exact ⟨((List.append_cons_inj_of_notMem hnotFront hnotBack).mp (h.symm.trans h')).1, rfl⟩

omit [Scalar α] [NumberText α] in
theorem located_eq_of_getElem? {i : Nat} {scene : Scene α} (h : s.scenes[i]? = some scene) :
    s.located = locatedFrom 0 (s.scenes.take i) ++ scene.located i ++
      locatedFrom (i + 1) (s.scenes.drop (i + 1)) := by
  obtain ⟨hi, rfl⟩ := List.getElem?_eq_some_iff.mp h
  have hscenes : s.scenes = s.scenes.take i ++ ([s.scenes[i]] ++ s.scenes.drop (i + 1)) := by
    rw [List.singleton_append, List.getElem_cons_drop, List.take_append_drop]
  have hlength : (s.scenes.take i).length = i := List.length_take_of_le (Nat.le_of_lt hi)
  have hone : locatedFrom i [s.scenes[i]] = s.scenes[i].located i := List.append_nil _
  change locatedFrom 0 s.scenes = _
  conv_lhs => rw [hscenes]
  rw [locatedFrom_append, locatedFrom_append, hlength, Nat.zero_add, hone, List.append_assoc]
  rfl

theorem mem_scan {d : Finding Defect} :
    d ∈ s.scan refs ↔
      (∃ (i : Nat) (scene : Scene α), s.scenes[i]? = some scene ∧
        d ∈ scene.openingDefects refs ((s.scenes.take i).map Scene.id)
          (Step.names (locatedFrom 0 (s.scenes.take i))) i) ∨
      ∃ front e back, s.located = front ++ e :: back ∧
        d ∈ e.2.defects refs (Step.names front) e.1 := by
  constructor
  · intro h
    obtain ⟨⟨scene, i⟩, hscene, h⟩ := List.mem_flatMap.mp h
    have hget : s.scenes[i]? = some scene := List.mem_zipIdx_iff_getElem?.mp hscene
    rcases List.mem_append.mp h with h | h
    · exact Or.inl ⟨i, scene, hget, h⟩
    · obtain ⟨front, e, back, hsplit, h⟩ := Step.mem_scan.mp h
      refine Or.inr ⟨_, e, back ++ locatedFrom (i + 1) (s.scenes.drop (i + 1)), ?_, h⟩
      rw [located_eq_of_getElem? hget, hsplit]
      simp only [List.append_assoc, List.cons_append]
  · rintro (⟨i, scene, hget, h⟩ | ⟨front, e, back, hsplit, h⟩)
    · exact List.mem_flatMap.mpr
        ⟨(scene, i), List.mem_zipIdx_iff_getElem?.mpr hget, List.mem_append_left _ h⟩
    · have he : e ∈ s.located := List.mem_iff_append.mpr ⟨_, _, hsplit⟩
      obtain ⟨⟨scene, i⟩, hscene, hin⟩ := List.mem_flatMap.mp he
      have hget : s.scenes[i]? = some scene := List.mem_zipIdx_iff_getElem?.mp hscene
      obtain ⟨front', back', hsplit'⟩ : ∃ front' back', scene.located i = front' ++ e :: back' :=
        List.append_of_mem hin
      have hwhole : s.located = (locatedFrom 0 (s.scenes.take i) ++ front') ++
          e :: (back' ++ locatedFrom (i + 1) (s.scenes.drop (i + 1))) := by
        rw [located_eq_of_getElem? hget, hsplit']
        simp only [List.append_assoc, List.cons_append]
      obtain ⟨rfl, -⟩ := split_unique hsplit hwhole rfl
      refine List.mem_flatMap.mpr ⟨(scene, i), hscene, List.mem_append_right _ ?_⟩
      exact Step.mem_scan.mpr ⟨front', e, back', hsplit', h⟩

end Script

/-! ## What is reported where -/

/-- A defect of a kind is among some defects at a path. -/
def Reported (defects : List (Finding Defect)) (kind : Defect) (path : String) : Prop :=
  ∃ d ∈ defects, d.kind = kind ∧ d.path = path

namespace Step

variable {created : List String} {place : Place} {s : Step α}

theorem kind_of_mem_durationDefects {duration : Option α} {d : Finding Defect}
    (h : d ∈ durationDefects place duration) : d.kind = .invalidRange := by
  cases duration with
  | none => exact absurd h List.not_mem_nil
  | some x =>
      obtain ⟨-, rfl⟩ := Finding.mem_when.mp h
      rfl

theorem kind_of_mem_timesDefects {times : Option α} {d : Finding Defect}
    (h : d ∈ timesDefects place times) : d.kind = .invalidRange := by
  cases times with
  | none => exact absurd h List.not_mem_nil
  | some x =>
      obtain ⟨-, rfl⟩ := Finding.mem_when.mp h
      rfl

theorem reported_missingReference_iff {target : String} (h : s.target? = some target) :
    Reported (s.defects refs created place) .missingReference (place.field "target") ↔
      isTarget refs created target = false := by
  have hclaim : s.claimDefects created place = [] := by
    apply claimDefects_of_claim?_eq_none
    cases s with
    | reveal | hide | fadeIn | fadeOut | highlight | pulse => rfl
    | create | animatePoint | fold | wait | unread => cases h
  constructor
  · rintro ⟨d, hd, hkind, -⟩
    rw [defects, hclaim, List.nil_append] at hd
    have htarget : d ∈ targetDefects refs created place target := by
      cases s with
      | reveal | hide | highlight =>
          cases h
          exact hd
      | fadeIn | fadeOut =>
          cases h
          rcases List.mem_append.mp hd with hd | hd
          · exact hd
          · cases hkind.symm.trans (kind_of_mem_durationDefects hd)
      | pulse =>
          cases h
          rcases List.mem_append.mp hd with hd | hd
          · exact hd
          · cases hkind.symm.trans (kind_of_mem_timesDefects hd)
      | create | animatePoint | fold | wait | unread => cases h
    obtain ⟨hmissing, -⟩ := Finding.mem_when.mp htarget
    exact Bool.not_eq_true' _ ▸ hmissing
  · intro hmissing
    let d : Finding Defect := ⟨.missingReference, place.field "target",
      "target '" ++ target ++ "' is neither a point nor a created element"⟩
    have htarget : d ∈ targetDefects refs created place target :=
      Finding.mem_when.mpr ⟨by rw [hmissing]; rfl, rfl⟩
    have hother : d ∈ s.otherDefects refs created place := by
      cases s with
      | reveal | hide | highlight =>
          cases h
          exact htarget
      | fadeIn | fadeOut | pulse =>
          cases h
          exact List.mem_append_left _ htarget
      | create | animatePoint | fold | wait | unread => cases h
    exact ⟨d, List.mem_append_right _ hother, rfl, rfl⟩

/-- The defects of a claim are among the defects of a step the only ones of their kinds. -/
theorem reported_claim_iff {kind : Defect} (hkind : kind.isMendable = true) {path : String} :
    Reported (s.defects refs created place) kind path ↔
      Reported (s.claimDefects created place) kind path := by
  constructor
  · rintro ⟨d, hd, rfl, rfl⟩
    rcases List.mem_append.mp hd with hd | hd
    · exact ⟨d, hd, rfl, rfl⟩
    · rw [isMendable_of_mem_otherDefects hd] at hkind
      cases hkind
  · rintro ⟨d, hd, rfl, rfl⟩
    exact ⟨d, List.mem_append_left _ hd, rfl, rfl⟩

theorem reported_missingId_iff {id : Option String} {verb : Verb}
    (h : s.claim? = some (id, verb)) :
    Reported (s.defects refs created place) .missingId (place.field "id") ↔
      ∀ name, id = some name → Text.isBlank name = true := by
  rw [reported_claim_iff rfl]
  unfold claimDefects
  rw [h]
  dsimp only
  constructor
  · rintro ⟨d, hd, hkind, -⟩ name rfl
    rw [Option.filter] at hd
    split_ifs at hd with hblank
    · obtain ⟨-, rfl⟩ := Finding.mem_when.mp hd
      cases hkind
    · simpa using hblank
  · intro hblank
    have hnone : id.filter (fun id => !Text.isBlank id) = none := by
      rw [Option.filter_eq_none_iff]
      intro name hname
      simp [hblank name hname]
    rw [hnone]
    exact ⟨_, List.mem_singleton_self _, rfl, rfl⟩

theorem reported_duplicateId_iff {id : Option String} {verb : Verb}
    (h : s.claim? = some (id, verb)) :
    Reported (s.defects refs created place) .duplicateId (place.field "id") ↔
      ∃ name, id = some name ∧ Text.isBlank name = false ∧ name ∈ created := by
  rw [reported_claim_iff rfl]
  unfold claimDefects
  rw [h]
  dsimp only
  constructor
  · rintro ⟨d, hd, hkind, -⟩
    split at hd
    next =>
      obtain rfl := List.mem_singleton.mp hd
      cases hkind
    next name hname =>
      obtain ⟨hcreated, -⟩ := Finding.mem_when.mp hd
      obtain ⟨hid, hblank⟩ := Option.filter_eq_some_iff.mp hname
      exact ⟨name, hid, by simpa using hblank, List.contains_iff_mem.mp hcreated⟩
  · rintro ⟨name, rfl, hblank, hcreated⟩
    have hsome : (some name).filter (fun id => !Text.isBlank id) = some name := by
      simp [hblank]
    rw [hsome]
    exact ⟨_, Finding.mem_when.mpr ⟨List.contains_iff_mem.mpr hcreated, rfl⟩, rfl, rfl⟩

end Step

namespace Script

variable {s : Script α}

/-- What is reported at a word behind a step is reported about that step. -/
theorem reported_scan_iff {front back : List (Place × Step α)} {place : Place} {step : Step α}
    (hsplit : s.located = front ++ (place, step) :: back) {word : String}
    (hdot : '.' ∉ word.toList) (hbracket : ']' ∉ word.toList) (kind : Defect) :
    Reported (s.scan refs) kind (place.field word) ↔
      Reported (step.defects refs (Step.names front) place) kind (place.field word) := by
  have hstep : (place, step) ∈ s.located := List.mem_iff_append.mpr ⟨_, _, hsplit⟩
  obtain ⟨i, hplace⟩ := exists_isInScene_of_mem_located hstep
  constructor
  · rintro ⟨d, hd, hkind, hpath⟩
    rcases mem_scan.mp hd with ⟨j, scene, -, h⟩ | ⟨front', e, back', hsplit', h⟩
    · exact absurd hpath (Scene.path_ne_of_mem_openingDefects h hplace hdot)
    · have he : e ∈ s.located := List.mem_iff_append.mpr ⟨_, _, hsplit'⟩
      obtain ⟨j, hother⟩ := exists_isInScene_of_mem_located he
      have hsame := (Step.isAbout_of_mem_defects h).place_eq hplace hother hdot hbracket hpath
      obtain ⟨rfl, rfl⟩ := split_unique hsplit' hsplit hsame
      exact ⟨d, h, hkind, hpath⟩
  · rintro ⟨d, h, hkind, hpath⟩
    exact ⟨d, mem_scan.mpr (Or.inr ⟨front, _, back, hsplit, h⟩), hkind, hpath⟩

theorem reported_lookAt_iff {i : Nat} {scene : Scene α} {shot : Shot α}
    (hscene : s.scenes[i]? = some scene) (hshot : scene.camera = .full shot) :
    Reported (s.scan refs) .missingReference (scenePath i ++ ".camera" ++ ".lookAt") ↔
      refs.isPoint shot.lookAt = false ∧
        shot.lookAt ∉ Step.names (locatedFrom 0 (s.scenes.take i)) := by
  have hdotted : scenePath i ++ ".camera" ++ ".lookAt" =
      scenePath i ++ "." ++ "camera" ++ "." ++ "lookAt" := by
    rw [← Place.dotted, ← Place.dotted]
    rfl
  constructor
  · rintro ⟨d, hd, -, hpath⟩
    rw [hdotted] at hpath
    rcases mem_scan.mp hd with ⟨j, other, hother, h⟩ | ⟨front, e, back, hsplit, h⟩
    · obtain ⟨rfl, shot', hshot', hmissing⟩ := Scene.mem_openingDefects_lookAt h hpath
      obtain rfl : scene = other := Option.some_inj.mp (hscene.symm.trans hother)
      obtain rfl : shot = shot' := by
        rw [hshot] at hshot'
        cases hshot'
        rfl
      exact hmissing
    · have he : e ∈ s.located := List.mem_iff_append.mpr ⟨_, _, hsplit⟩
      obtain ⟨j, hin⟩ := exists_isInScene_of_mem_located he
      exact absurd hpath
        ((Step.isAbout_of_mem_defects h).path_ne_camera hin _ (by decide) (by decide))
  · rintro ⟨hpoint, hnames⟩
    refine ⟨⟨.missingReference, scenePath i ++ ".camera" ++ ".lookAt",
      "lookAt '" ++ shot.lookAt ++ "' is neither a point nor a created element"⟩,
      mem_scan.mpr (Or.inl ⟨i, scene, hscene, ?_⟩), rfl, rfl⟩
    apply List.mem_append_left
    apply List.mem_append_right
    rw [hshot]
    apply List.mem_append_right
    apply Finding.mem_when.mpr
    refine ⟨?_, rfl⟩
    rw [hpoint, Bool.not_false, Bool.true_and, Bool.not_eq_true', List.contains_eq_mem,
      decide_eq_false_iff_not]
    exact hnames

/--
A review of a script goes down into groups and hands on the names that are claimed, and
finds what a scan of the steps in document order finds, defect for defect.  A target is
missing when it is not the stage's own, no point, and the name of no step before;
a name is missing when there is none or a blank one, and taken when a step before
claims it.  What a camera looks at is missing when it is no point and the name of no
step of a scene before.
-/
theorem review_scans (standards : Standards α) (m : Model α) (s : Script α) :
    (s.review standards m).defects =
        (walkFrom (References.ofModel m) [] Progress.empty 0 s.scenes).defects ∧
    (s.review standards m).defects = s.scan (References.ofModel m) ∧
    (∀ front place step back, s.located = front ++ (place, step) :: back →
      (∀ target, step.target? = some target →
        (Reported (s.review standards m).defects .missingReference (place.field "target") ↔
          target ∉ ownTargets ∧ (References.ofModel m).isPoint target = false ∧
            target ∉ Step.names front)) ∧
      ∀ id verb, step.claim? = some (id, verb) →
        (Reported (s.review standards m).defects .missingId (place.field "id") ↔
          ∀ name, id = some name → Text.isBlank name = true) ∧
        (Reported (s.review standards m).defects .duplicateId (place.field "id") ↔
          ∃ name, id = some name ∧ Text.isBlank name = false ∧ name ∈ Step.names front)) ∧
    ∀ (i : Nat) scene shot, s.scenes[i]? = some scene → scene.camera = .full shot →
      (Reported (s.review standards m).defects .missingReference
          (scenePath i ++ ".camera" ++ ".lookAt") ↔
        (References.ofModel m).isPoint shot.lookAt = false ∧
          shot.lookAt ∉ Step.names (locatedFrom 0 (s.scenes.take i))) := by
  refine ⟨?_, s.defects_review standards m, ?_, ?_⟩
  · rw [walkFrom_eq]
    rfl
  · intro front place step back hsplit
    rw [s.defects_review standards m]
    constructor
    · intro target htarget
      rw [reported_scan_iff hsplit (by decide) (by decide),
        Step.reported_missingReference_iff htarget]
      simp only [Step.isTarget, Bool.or_eq_false_iff, List.contains_eq_mem,
        decide_eq_false_iff_not, and_assoc]
    · intro id verb hclaim
      rw [reported_scan_iff hsplit (by decide) (by decide),
        reported_scan_iff hsplit (by decide) (by decide)]
      exact ⟨Step.reported_missingId_iff hclaim, Step.reported_duplicateId_iff hclaim⟩
  · intro i scene shot hscene hshot
    rw [s.defects_review standards m]
    exact reported_lookAt_iff hscene hshot

/-- A script of a line whose name is blank, and of a camera that looks at that name. -/
def blankScript : Script Float where
  title := ""
  scenes := [
    { id := "line"
      narration := ""
      camera := .standard
      actions := [.step (.create (some " ") none (.line "A" "B" none))]
      measurements := none },
    { id := "look"
      narration := ""
      camera := .full ⟨⟨2.5, 0, 45⟩, " ", .ease⟩
      actions := []
      measurements := none }]

/-- A blank name is looked for in vain, although a step of a scene before has it. -/
theorem not_reported_lookAt_iff_blank :
    ¬ (Reported (blankScript.review Standards.usual plainCube).defects .missingReference
          (scenePath 1 ++ ".camera" ++ ".lookAt") ↔
        (References.ofModel plainCube).isPoint " " = false ∧
          ∀ e ∈ locatedFrom 0 (blankScript.scenes.take 1), e.2.claimedName? ≠ some " ") := by
  have hreported : Reported (blankScript.review Standards.usual plainCube).defects
      .missingReference (scenePath 1 ++ ".camera" ++ ".lookAt") := by
    unfold Reported
    decide +kernel
  have hname : ∃ e ∈ locatedFrom 0 (blankScript.scenes.take 1), e.2.claimedName? = some " " := by
    decide +kernel
  intro h
  obtain ⟨e, he, hclaimed⟩ := hname
  exact (h.mp hreported).2 e he hclaimed

end Script

end Storyboard
