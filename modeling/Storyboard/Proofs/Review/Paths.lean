import Storyboard.Proofs.Review.StepDefects
import Storyboard.Proofs.Script.Traversal
import Storyboard.Review.Script

/-!
# The paths of findings

What is found about a step is found at the place of the step or at a word behind it.
The word behind the last dot of a path can be read back, so that two steps have no
path in common, and no step has a path in common with the camera or the measurements
of a scene.
-/

namespace Storyboard

namespace Place

/-! ## The last word of a path -/

theorem dotted (front word : String) : front ++ ("." ++ word) = front ++ "." ++ word :=
  String.append_assoc.symm

/-- The word behind the last dot of a path can be read off its end. -/
theorem dotted_inj {front front' word word' : String} (hword : '.' ∉ word.toList)
    (hword' : '.' ∉ word'.toList) (h : front ++ "." ++ word = front' ++ "." ++ word') :
    front = front' ∧ word = word' := by
  have hback : word.toList.reverse ++ '.' :: front.toList.reverse =
      word'.toList.reverse ++ '.' :: front'.toList.reverse := by
    have hlist := congrArg (fun path => path.toList.reverse) h
    simpa using hlist
  obtain ⟨hwords, hfronts⟩ := append_mark_inj (by simpa using hword) (by simpa using hword') hback
  exact ⟨String.toList_inj.mp (List.reverse_injective hfronts),
    String.toList_inj.mp (List.reverse_injective hwords)⟩

theorem dot_notMem_bracketed (i : Nat) : '.' ∉ (bracketed i).toList := by
  rw [bracketed_toList]
  intro h
  rcases List.mem_cons.mp h with h | h
  · revert h
    decide
  · rcases List.mem_append.mp h with h | h
    · exact absurd h (notMem_toDigits rfl i)
    · revert h
      decide

/-- The path of an action ends in the index of the action. -/
theorem IsInScene.path_eq {p : Place} {scene : Nat} (h : p.IsInScene scene) :
    ∃ front i, p.path = front ++ "." ++ ("actions" ++ bracketed i) := by
  obtain ⟨list, indices⟩ := p
  obtain ⟨hlist, hne⟩ := h
  change list = _ at hlist
  subst hlist
  have hdot : ∀ front i, front ++ ".actions" ++ bracketed i =
      front ++ "." ++ ("actions" ++ bracketed i) := by
    intro front i
    have hword : front ++ "." ++ "actions" = front ++ ".actions" := String.append_assoc
    rw [← hword, String.append_assoc]
  cases indices with
  | nil => exact absurd rfl hne
  | cons i rest =>
      rcases List.eq_nil_or_concat rest with rfl | ⟨middle, j, rfl⟩
      · exact ⟨scenePath scene, i, hdot _ _⟩
      · refine ⟨path ⟨scenePath scene ++ ".actions", i :: middle⟩, j, ?_⟩
        rw [← hdot]
        dsimp only [path]
        rw [List.concat_eq_append, List.foldl_append, List.foldl_cons, List.foldl_nil]

/-- A path that ends in a word without brackets is not the path of an action. -/
theorem IsInScene.path_ne {p : Place} {scene : Nat} (h : p.IsInScene scene) (front : String)
    {word : String} (hdot : '.' ∉ word.toList) (hbracket : ']' ∉ word.toList) :
    p.path ≠ front ++ "." ++ word := by
  obtain ⟨front', i, hpath⟩ := h.path_eq
  rw [hpath]
  intro heq
  have hactions : '.' ∉ ("actions" ++ bracketed i).toList := by
    rw [String.toList_append, List.mem_append]
    exact not_or.mpr ⟨by decide, dot_notMem_bracketed i⟩
  obtain ⟨-, hword⟩ := dotted_inj hactions hdot heq
  apply hbracket
  rw [← hword, String.toList_append, bracketed_toList]
  simp

/-- The path of an action is not that of a scene. -/
theorem IsInScene.path_ne_scenePath {p : Place} {scene : Nat} (h : p.IsInScene scene)
    (j : Nat) : p.path ≠ scenePath j := by
  obtain ⟨front, i, hpath⟩ := h.path_eq
  rw [hpath]
  intro heq
  have hdot : '.' ∈ (scenePath j).toList := by
    rw [← heq]
    simp
  rw [scenePath, String.toList_append, List.mem_append] at hdot
  rcases hdot with hdot | hdot
  · revert hdot
    decide
  · exact dot_notMem_bracketed j hdot

theorem scenePath_inj {i j : Nat} (h : scenePath i = scenePath j) : i = j := by
  have hlist := congrArg String.toList h
  rw [scenePath, scenePath, String.toList_append, String.toList_append] at hlist
  have hbracketed := List.append_cancel_left hlist
  exact (bracketed_append_inj (congrArg (· ++ []) hbracketed)).1

end Place

/-! ## Findings about a step -/

/-- A finding about an action is at its place or at a word behind it. -/
def Finding.IsAbout {κ : Type} (d : Finding κ) (place : Place) : Prop :=
  d.path = place.path ∨ ∃ word, '.' ∉ word.toList ∧ d.path = place.field word

namespace Finding.IsAbout

variable {κ : Type} {d : Finding κ}

theorem at_word {place : Place} (word : String) (hpath : d.path = place.field word)
    (hdot : '.' ∉ word.toList) : d.IsAbout place := Or.inr ⟨word, hdot, hpath⟩

/-- A finding at a word behind an action is about no other action. -/
theorem place_eq {p q : Place} {i j : Nat} (h : d.IsAbout q) (hp : p.IsInScene i)
    (hq : q.IsInScene j) {word : String} (hdot : '.' ∉ word.toList)
    (hbracket : ']' ∉ word.toList) (hpath : d.path = p.field word) : q = p := by
  rcases h with h | ⟨word', hdot', h⟩
  · exact absurd (h.symm.trans hpath) (hq.path_ne p.path hdot hbracket)
  · obtain ⟨hpaths, -⟩ := Place.dotted_inj hdot' hdot (h.symm.trans hpath)
    refine hq.eq_of_field_id hp ?_
    rw [Place.field, Place.field, hpaths]

/-- A finding about an action is not at a word of the camera of a scene. -/
theorem path_ne_camera {q : Place} {j : Nat} (h : d.IsAbout q) (hq : q.IsInScene j)
    (front : String) {word : String} (hdot : '.' ∉ word.toList) (hbracket : ']' ∉ word.toList) :
    d.path ≠ front ++ "." ++ "camera" ++ "." ++ word := by
  intro hpath
  rcases h with h | ⟨word', hdot', h⟩
  · exact hq.path_ne _ hdot hbracket (h.symm.trans hpath)
  · obtain ⟨hpaths, -⟩ := Place.dotted_inj hdot' hdot (h.symm.trans hpath)
    exact hq.path_ne front (by decide) (by decide) hpaths

theorem of_mem_when {condition : Bool} {kind : Defect} {place : Place} {word message : String}
    {d : Finding Defect} (hdot : '.' ∉ word.toList)
    (h : d ∈ Finding.when condition kind (place.field word) message) : d.IsAbout place := by
  obtain ⟨-, rfl⟩ := Finding.mem_when.mp h
  exact at_word _ rfl hdot

end Finding.IsAbout

theorem Unread.dot_notMem_brokenField {u : Unread} {verb : Verb} {name : String}
    (h : u.brokenField? verb = some name) : '.' ∉ name.toList := by
  have hname : name ∈ ["from", "to", "points", "vertices"] := by
    unfold brokenField? at h
    split at h
    · have hmem := List.mem_of_find?_eq_some h
      simp only [List.mem_cons, List.not_mem_nil, or_false] at hmem ⊢
      exact hmem.elim Or.inl fun hto => Or.inr (Or.inl hto)
    · have hmem := List.mem_of_find?_eq_some h
      simp only [List.mem_cons, List.not_mem_nil, or_false] at hmem ⊢
      exact hmem.elim Or.inl fun hto => Or.inr (Or.inl hto)
    · split at h
      · cases h
      · cases h
        simp
    · split at h
      · cases h
      · cases h
        simp
    · cases h
  clear h
  revert name
  decide

theorem Unread.isAbout_defect (u : Unread) (place : Place) : (u.defect place).IsAbout place := by
  unfold defect
  split
  next => exact Or.inl rfl
  next => exact .at_word _ rfl (by decide)
  next verb detail _ =>
    dsimp only
    split
    next => exact .at_word _ rfl (by decide)
    next =>
      split
      next =>
        split
        next name hname => exact .at_word _ rfl (dot_notMem_brokenField hname)
        next => exact Or.inl rfl
      next =>
        split
        next =>
          split
          next => exact .at_word _ rfl (by decide)
          next => exact .at_word _ rfl (by decide)
        next => exact .at_word _ rfl (by decide)
        next => exact .at_word _ rfl (by decide)
        next => exact Or.inl rfl

namespace Step

variable {α : Type}

theorem isAbout_of_mem_pointsDefects {refs : References} {place : Place} {word : String}
    {ids : List String} {d : Finding Defect} (hdot : '.' ∉ word.toList)
    (h : d ∈ pointsDefects refs (place.field word) ids) : d.IsAbout place := by
  obtain ⟨⟨id, j⟩, -, hd⟩ := List.mem_flatMap.mp h
  obtain ⟨-, rfl⟩ := Finding.mem_when.mp hd
  refine .at_word (word ++ Place.bracketed j) String.append_assoc ?_
  rw [String.toList_append, List.mem_append]
  exact not_or.mpr ⟨hdot, Place.dot_notMem_bracketed j⟩

theorem isAbout_of_mem_shapeDefects {refs : References} {place : Place} {shape : Shape α}
    {d : Finding Defect} (h : d ∈ shapeDefects refs place shape) : d.IsAbout place := by
  cases shape with
  | line a b style | path a b =>
      rcases List.mem_append.mp h with h | h
      · exact .of_mem_when (by decide) h
      · exact .of_mem_when (by decide) h
  | plane ids opacity | tetrahedron ids opacity =>
      rw [shapeDefects] at h
      split_ifs at h
      · obtain rfl := List.mem_singleton.mp h
        exact .at_word _ rfl (by decide)
      · exact isAbout_of_mem_pointsDefects (by decide) h

variable [Scalar α] [NumberText α]

theorem isAbout_of_mem_durationDefects {place : Place} {duration : Option α}
    {d : Finding Defect} (h : d ∈ durationDefects place duration) : d.IsAbout place := by
  cases duration with
  | none => exact absurd h List.not_mem_nil
  | some x => exact .of_mem_when (by decide) h

theorem isAbout_of_mem_timesDefects {place : Place} {times : Option α} {d : Finding Defect}
    (h : d ∈ timesDefects place times) : d.IsAbout place := by
  cases times with
  | none => exact absurd h List.not_mem_nil
  | some x => exact .of_mem_when (by decide) h

/-- Every defect of a step is about the action at its place. -/
theorem isAbout_of_mem_defects {refs : References} {created : List String} {place : Place}
    {s : Step α} {d : Finding Defect} (h : d ∈ s.defects refs created place) :
    d.IsAbout place := by
  rcases List.mem_append.mp h with h | h
  · exact .at_word _ (mem_claimDefects h).2.1 (by decide)
  cases s with
  | reveal target | hide target | highlight target _ => exact .of_mem_when (by decide) h
  | fadeIn target _ | fadeOut target _ =>
      rcases List.mem_append.mp h with h | h
      · exact .of_mem_when (by decide) h
      · exact isAbout_of_mem_durationDefects h
  | pulse target _ times =>
      rcases List.mem_append.mp h with h | h
      · exact .of_mem_when (by decide) h
      · exact isAbout_of_mem_timesDefects h
  | create _ _ shape => exact isAbout_of_mem_shapeDefects h
  | animatePoint target start finish duration =>
      rcases List.mem_append.mp h with h | h
      · rcases List.mem_append.mp h with h | h
        · exact .of_mem_when (by decide) h
        · exact .of_mem_when (by decide) h
      · exact isAbout_of_mem_durationDefects h
  | fold id _ _ duration =>
      rcases List.mem_append.mp h with h | h
      · exact .of_mem_when (by decide) h
      · exact isAbout_of_mem_durationDefects h
  | wait duration =>
      change d ∈ durationDefects place (some duration) at h
      exact isAbout_of_mem_durationDefects h
  | unread u =>
      obtain rfl := List.mem_singleton.mp h
      exact u.isAbout_defect place

end Step

/-! ## Findings at the opening of a scene -/

section Opening

variable {α : Type} [Scalar α] [NumberText α] {refs : References}

theorem Camera.mem_defects {created : List String} {path : String} {c : Camera α}
    {d : Finding Defect} (h : d ∈ c.defects refs created path) :
    d.path = path ∨ d.path = path ++ "." ++ "spherical" ++ "." ++ "phi" ∨
      ∃ shot, c = .full shot ∧ refs.isPoint shot.lookAt = false ∧ shot.lookAt ∉ created ∧
        d.path = path ++ "." ++ "lookAt" := by
  have hphi : path ++ ".spherical.phi" = path ++ "." ++ "spherical" ++ "." ++ "phi" := by
    simp only [String.append_assoc]
    rfl
  cases c with
  | preset name =>
      obtain ⟨-, rfl⟩ := Finding.mem_when.mp h
      exact Or.inl rfl
  | unread raw =>
      obtain rfl := List.mem_singleton.mp h
      exact Or.inl rfl
  | full shot =>
      rcases List.mem_append.mp h with h | h
      · unfold elevationDefects at h
        split at h
        · obtain rfl := List.mem_singleton.mp h
          exact Or.inr (Or.inl hphi)
        · obtain ⟨-, rfl⟩ := Finding.mem_when.mp h
          exact Or.inr (Or.inl hphi)
      · obtain ⟨hmissing, rfl⟩ := Finding.mem_when.mp h
        simp only [Bool.and_eq_true, Bool.not_eq_true', List.contains_eq_mem,
          decide_eq_false_iff_not] at hmissing
        exact Or.inr (Or.inr ⟨shot, rfl, hmissing.1, hmissing.2, Place.dotted path "lookAt"⟩)

namespace Scene

variable {earlier created : List String} {i : Nat} {s : Scene α} {d : Finding Defect}

theorem mem_openingDefects (h : d ∈ s.openingDefects refs earlier created i) :
    (∃ word ∈ ["id", "camera"], d.path = scenePath i ++ "." ++ word) ∨
    d.path = scenePath i ++ "." ++ "camera" ++ "." ++ "spherical" ++ "." ++ "phi" ∨
    (∃ shot, s.camera = .full shot ∧ refs.isPoint shot.lookAt = false ∧
      shot.lookAt ∉ created ∧ d.path = scenePath i ++ "." ++ "camera" ++ "." ++ "lookAt") ∨
    ∃ j, d.path = scenePath i ++ "." ++ ("showMeasurements" ++ Place.bracketed j) := by
  rcases List.mem_append.mp h with h | h
  · rcases List.mem_append.mp h with h | h
    · obtain ⟨-, rfl⟩ := Finding.mem_when.mp h
      exact Or.inl ⟨"id", by simp, Place.dotted _ "id"⟩
    · have hcamera : scenePath i ++ ".camera" = scenePath i ++ "." ++ "camera" :=
        Place.dotted _ "camera"
      rw [hcamera] at h
      rcases Camera.mem_defects h with h | h | h
      · exact Or.inl ⟨"camera", by simp, h⟩
      · exact Or.inr (Or.inl h)
      · exact Or.inr (Or.inr (Or.inl h))
  · obtain ⟨⟨id, j⟩, -, hd⟩ := List.mem_flatMap.mp h
    obtain ⟨-, rfl⟩ := Finding.mem_when.mp hd
    refine Or.inr (Or.inr (Or.inr ⟨j, ?_⟩))
    have hword : scenePath i ++ ".showMeasurements" = scenePath i ++ "." ++ "showMeasurements" :=
      Place.dotted _ "showMeasurements"
    rw [hword, String.append_assoc]

theorem dot_notMem_measurement (j : Nat) :
    '.' ∉ ("showMeasurements" ++ Place.bracketed j).toList := by
  rw [String.toList_append, List.mem_append]
  exact not_or.mpr ⟨by decide, Place.dot_notMem_bracketed j⟩

/-- Nothing that is found at the opening of a scene is at a word behind an action. -/
theorem path_ne_of_mem_openingDefects (h : d ∈ s.openingDefects refs earlier created i)
    {p : Place} {j : Nat} (hp : p.IsInScene j) {word : String} (hdot : '.' ∉ word.toList) :
    d.path ≠ p.field word := by
  intro hpath
  rcases mem_openingDefects h with ⟨word', hword', h⟩ | h | ⟨shot, -, -, -, h⟩ | ⟨k, h⟩
  · have hdots : ∀ word ∈ ["id", "camera"], '.' ∉ word.toList := by decide
    exact hp.path_ne_scenePath i (Place.dotted_inj hdot (hdots word' hword') (hpath.symm.trans h)).1
  · exact hp.path_ne _ (by decide) (by decide)
      (Place.dotted_inj hdot (by decide) (hpath.symm.trans h)).1
  · exact hp.path_ne _ (by decide) (by decide)
      (Place.dotted_inj hdot (by decide) (hpath.symm.trans h)).1
  · exact hp.path_ne_scenePath i
      (Place.dotted_inj hdot (dot_notMem_measurement k) (hpath.symm.trans h)).1

/-- What is found at what the camera of a scene looks at is that it looks at nothing. -/
theorem mem_openingDefects_lookAt (h : d ∈ s.openingDefects refs earlier created i)
    {j : Nat} (hpath : d.path = scenePath j ++ "." ++ "camera" ++ "." ++ "lookAt") :
    i = j ∧ ∃ shot, s.camera = .full shot ∧ refs.isPoint shot.lookAt = false ∧
      shot.lookAt ∉ created := by
  rcases mem_openingDefects h with
    ⟨word', hword', h⟩ | h | ⟨shot, hshot, hpoint, hcreated, h⟩ | ⟨k, h⟩
  · have hdots : ∀ word ∈ ["id", "camera"], '.' ∉ word.toList := by decide
    have hword := (Place.dotted_inj (by decide) (hdots word' hword')
      (hpath.symm.trans h)).2
    rw [← hword] at hword'
    exact absurd hword' (by decide)
  · have hword := (Place.dotted_inj (by decide) (by decide) (hpath.symm.trans h)).2
    exact absurd hword (by decide)
  · have hcamera := (Place.dotted_inj (by decide) (by decide) (hpath.symm.trans h)).1
    have hscene := (Place.dotted_inj (by decide) (by decide) hcamera).1
    exact ⟨(Place.scenePath_inj hscene).symm, shot, hshot, hpoint, hcreated⟩
  · have hword := (Place.dotted_inj (by decide) (dot_notMem_measurement k)
      (hpath.symm.trans h)).2
    have hbracket : ']' ∈ ("showMeasurements" ++ Place.bracketed k).toList := by
      rw [String.toList_append, Place.bracketed_toList]
      simp
    rw [← hword] at hbracket
    exact absurd hbracket (by decide)

end Scene

end Opening

end Storyboard
