import Storyboard.Proofs.Figure.Survey
import Storyboard.Review.References
import Storyboard.Timeline.Element

/-!
# Points that a review knows

A review takes every name that a fold mentions for a point, also where the fold turns
nothing: the hinge of a fold without places, and moving points beyond the folded ones.
A figure that can be surveyed locates all of the points that a review knows but these.
What it locates, it never fails to find under another setting of the parameters and
the folds.
-/

namespace Storyboard

variable {α : Type}

namespace Figure

/-- A place of a fold whose image is located by it. -/
def Turns (fig : Figure α) (f : Fold α) (k : Nat) : Prop :=
  ∃ id, fig.referent ⟨true, id⟩ = .turned f k

/--
A name that stands for nothing itself, and that is not a source of an image that a fold
locates.
-/
structure IsIdle (fig : Figure α) (id : String) : Prop where
  not_center : id ≠ centerId
  not_vertex : id ∉ fig.model.solid.kind.vertexIds
  not_named : id ∉ fig.pointIds
  not_source : ∀ f k, fig.Turns f k → id ∉ f.sources k

/-! ## Names that are found under every setting -/

section Found

variable [Analytic α] {fig : Figure α} {setting : Setting α}

/-- All that a look-up depends on is answered with it. -/
theorem exists_answer_eq_ok_of_reach {chain : List String} {q r : LookUp} {v : Vec α}
    (h : fig.answer setting chain q = .ok v) (hreach : Relation.ReflTransGen fig.DependsOn q r) :
    ∃ chain' w, fig.answer setting chain' r = .ok w := by
  induction hreach with
  | refl => exact ⟨chain, v, h⟩
  | tail _ hstep ih =>
      obtain ⟨chain', w, hw⟩ := ih
      obtain ⟨chain'', w', -, hw'⟩ := exists_asks_of_answer_eq_ok hw hstep
      exact ⟨chain'', w', hw'⟩

/-- A point that is not found depends on a name that stands for nothing. -/
theorem exists_unknown_of_answer {chain : List String} {q : LookUp} {x : String}
    (h : fig.answer setting chain q = .error (.unknownPoint x)) :
    ∃ r, Relation.ReflTransGen fig.DependsOn q r ∧ fig.referent r = .unknown := by
  induction hdepth : fig.depth chain q using Nat.strongRecOn generalizing chain q with
  | _ depth ih =>
      subst hdepth
      rcases answer_eq_error h with
        hfinds | ⟨-, -, -, hcycle⟩ | ⟨href, -⟩ | ⟨chain', r, hasks, hanswer⟩
      · exact hfinds.elim
      · cases hcycle
      · exact ⟨q, .refl, href⟩
      · obtain ⟨r', hreach, hr'⟩ := ih _ hasks.depth_lt hanswer rfl
        exact ⟨r', .head hasks.dependsOn hreach, hr'⟩

/-- A point that is located under one setting is found under every other. -/
theorem locate_ne_unknownPoint {id : String} {v : Vec α} (h : fig.locate setting id = .ok v)
    (setting' : Setting α) (x : String) :
    fig.locate setting' id ≠ .error (.unknownPoint x) := by
  intro hfail
  have hok : fig.answer setting [] ⟨true, id⟩ = .ok v := h
  obtain ⟨r, hreach, href⟩ := exists_unknown_of_answer
    (show fig.answer setting' [] ⟨true, id⟩ = _ from hfail)
  obtain ⟨chain, w, hw⟩ := exists_answer_eq_ok_of_reach hok hreach
  rw [answer_eq, locateBy, href] at hw
  cases hw

end Found

end Figure

/-! ## The vertices of a figure -/

section Vertices

variable [Analytic α]

/-- A solid that can be placed has a corner for each of its vertices. -/
theorem Solid.length_corners {solid : Solid α} {corners : List (Vec α)}
    (h : solid.corners? = some corners) : corners.length = solid.kind.vertexIds.length := by
  unfold corners? at h
  split at h
  all_goals cases h
  all_goals next hkind => rw [hkind]; rfl

theorem Model.mem_keys_vertices {m : Model α} {fig : Figure α} (h : m.figure = .ok fig)
    {id : String} : id ∈ fig.vertices.keys ↔ id ∈ m.solid.kind.vertexIds := by
  unfold figure at h
  split at h
  next vertices hvertices =>
    cases h
    obtain ⟨corners, hcorners, rfl⟩ := Option.map_eq_some_iff.mp hvertices
    have hlength := Solid.length_corners hcorners
    rw [OrderedMap.ofList, OrderedMap.mem_keys_insertAll, List.map_fst_zip (Nat.le_of_eq hlength.symm)]
    exact or_iff_right List.not_mem_nil
  next => cases h

end Vertices

/-! ## Names that are located -/

namespace Figure

section Located

variable {fig : Figure α} {id : String}

theorem mem_pointIds_iff :
    id ∈ fig.pointIds ↔ (∃ p ∈ fig.model.points, p.id = id) ∨ fig.isFolded id = true := by
  simp [pointIds, isFolded, Model.foldedPoints]

theorem foldOnto?_eq_none_of_notMem (h : id ∉ fig.pointIds) : fig.foldOnto? id = none := by
  rw [mem_pointIds_iff, not_or, Bool.not_eq_true] at h
  exact foldOnto?_eq_none_iff.mpr h.2

theorem mem_pointIds_of_referent_eq_turned {f : Fold α} {k : Nat}
    (h : fig.referent ⟨true, id⟩ = .turned f k) : id ∈ fig.pointIds := by
  by_contra hnone
  obtain ⟨-, -, hfold⟩ := referent_eq_turned_iff.mp h
  rw [foldOnto?_eq_none_of_notMem hnone] at hfold
  cases hfold

theorem definition?_eq_none_of_notMem (h : id ∉ fig.pointIds) : fig.definition? id = none := by
  rw [mem_pointIds_iff, not_or] at h
  rw [definition?, List.find?_eq_none]
  intro p hp hname
  exact h.1 ⟨p, List.mem_reverse.mp hp, by simpa using hname⟩

/-- A name that is not folded stands for the same with and without regard to folds. -/
theorem answer_of_foldOnto?_eq_none [Analytic α] (h : fig.foldOnto? id = none)
    (setting : Setting α) (chain : List String) :
    fig.answer setting chain ⟨true, id⟩ = fig.answer setting chain ⟨false, id⟩ := by
  have hreferent : fig.referent ⟨true, id⟩ = fig.referent ⟨false, id⟩ := by
    simp [referent, h]
  rw [answer_eq, answer_eq, locateBy, locateBy, hreferent]

/-- An idle name stands for nothing. -/
theorem IsIdle.referent_eq [Analytic α] (hfig : fig.model.figure = .ok fig)
    (h : fig.IsIdle id) : fig.referent ⟨true, id⟩ = .unknown := by
  have hvertex : fig.vertices.contains id = false := by
    rw [← Bool.not_eq_true, OrderedMap.contains_eq_isSome, ← OrderedMap.mem_keys_iff,
      Model.mem_keys_vertices hfig]
    exact h.not_vertex
  exact referent_eq_unknown_iff.mpr ⟨h.not_center,
    fun _ => foldOnto?_eq_none_of_notMem h.not_named,
    OrderedMap.get?_eq_none_of_contains hvertex, definition?_eq_none_of_notMem h.not_named⟩

/-- A figure that can be surveyed locates every name that is not idle. -/
theorem exists_locate_eq_ok [Analytic α] {survey : Survey α}
    (hfig : fig.model.figure = .ok fig) (h : fig.survey .none = .ok survey)
    (hid : ¬ fig.IsIdle id) : ∃ v, fig.locate .none id = .ok v := by
  have hpoints : ∀ x ∈ fig.pointIds, ∃ v, fig.locate .none x = .ok v := fun x hx =>
    ((exists_survey_eq_ok_iff.mp ⟨survey, h⟩).1 x hx).1
  by_cases hnamed : id ∈ fig.pointIds
  · exact hpoints id hnamed
  have hfold := foldOnto?_eq_none_of_notMem hnamed
  by_cases hcenter : id = centerId
  · rw [hcenter]
    exact ⟨0, locate_center fig _⟩
  by_cases hvertex : id ∈ fig.model.solid.kind.vertexIds
  · obtain ⟨v, hv⟩ := Option.isSome_iff_exists.mp
      (OrderedMap.mem_keys_iff.mp ((Model.mem_keys_vertices hfig).mpr hvertex))
    have href : fig.referent ⟨true, id⟩ = .vertex v := by simp [referent, hcenter, hfold, hv]
    refine ⟨v, ?_⟩
    change fig.answer .none [] ⟨true, id⟩ = _
    rw [answer_eq, locateBy, href]
    rfl
  · -- the image that the name is a source of is located, and asks for it without folds
    obtain ⟨f, k, ⟨x, hx⟩, hsource⟩ : ∃ f k, fig.Turns f k ∧ id ∈ f.sources k := by
      by_contra hnone
      exact hid ⟨hcenter, hvertex, hnamed, fun f k hturns hsource =>
        hnone ⟨f, k, hturns, hsource⟩⟩
    obtain ⟨v, hv⟩ := hpoints x (mem_pointIds_of_referent_eq_turned hx)
    have hturned : fig.answer .none [] ⟨true, x⟩ = .ok v := hv
    rw [answer_of_turned hx] at hturned
    obtain ⟨w, hw⟩ := turnBy_eq_ok hturned id hsource
    exact ⟨w, (answer_of_foldOnto?_eq_none hfold _ _).trans hw⟩

end Located

end Figure

/-! ## The points of a review -/

/-- A point that a review knows and the figure does not is mentioned by a fold. -/
theorem References.exists_fold_of_isPoint {m : Model α} {id : String}
    (h : (ofModel m).isPoint id = true) (hcenter : id ≠ centerId)
    (hvertex : id ∉ m.solid.kind.vertexIds) (hpoint : ∀ p ∈ m.points, p.id ≠ id)
    (hfolded : ∀ f ∈ m.folds, id ∉ f.folded) :
    ∃ f ∈ m.folds, id ∈ f.moving ∨ id = f.hinge.1 ∨ id = f.hinge.2 := by
  have hmem : id ∈ (ofModel m).points.keys := by
    rw [OrderedMap.mem_keys_iff, ← OrderedMap.contains_eq_isSome]
    exact (Bool.or_eq_true_iff.mp h).resolve_left fun hid => hcenter (eq_of_beq hid)
  rw [ofModel, OrderedSet.mem_keys_ofElements] at hmem
  simp only [List.mem_append, List.mem_map, List.mem_flatMap, List.mem_singleton] at hmem
  rcases hmem with ((hmem | ⟨p, hp, hname⟩) | ⟨f, hf, hmem⟩) | hmem
  · exact absurd hmem hvertex
  · exact absurd hname (hpoint p hp)
  · simp only [foldPoints, List.mem_append, List.mem_pair, or_assoc] at hmem
    exact ⟨f, hf, hmem.resolve_left (hfolded f hf)⟩
  · exact absurd hmem hcenter

namespace Figure

/--
Let a figure be surveyed with nothing set.  Of the points that a review of its model knows
it locates all but the idle ones, and under no setting are they or the elements drawn
through them unknown to it.  An idle one is mentioned by a fold as a moving point or in
its hinge, and is unknown under every setting.
-/
theorem locate_of_isPoint [Analytic α] {m : Model α} {fig : Figure α} {survey : Survey α}
    (hfig : m.figure = .ok fig) (h : fig.survey .none = .ok survey) :
    (∀ id, (References.ofModel m).isPoint id = true →
      (¬ fig.IsIdle id →
        (∃ v, fig.locate .none id = .ok v) ∧
        ∀ setting x, fig.locate setting id ≠ .error (.unknownPoint x)) ∧
      (fig.IsIdle id →
        (∃ f ∈ m.folds, id ∈ f.moving ∨ id = f.hinge.1 ∨ id = f.hinge.2) ∧
        ∀ setting, fig.locate setting id = .error (.unknownPoint id))) ∧
    ∀ e : Element α,
      (∀ a ∈ e.form.anchors, (References.ofModel m).isPoint a = true ∧ ¬ fig.IsIdle a) →
      (∃ anchors, e.locate fig .none = .ok anchors) ∧
      ∀ setting x, e.locate fig setting ≠ .error (.unknownPoint x) := by
  obtain rfl := Model.model_of_figure hfig
  have hfound : ∀ id, ¬ fig.IsIdle id → (∃ v, fig.locate .none id = .ok v) ∧
      ∀ setting x, fig.locate setting id ≠ .error (.unknownPoint x) := by
    intro id hid
    obtain ⟨v, hv⟩ := exists_locate_eq_ok hfig h hid
    exact ⟨⟨v, hv⟩, locate_ne_unknownPoint hv⟩
  refine ⟨fun id hpoint => ⟨hfound id, fun hid => ⟨?_, fun setting => ?_⟩⟩, fun e he => ⟨?_, ?_⟩⟩
  · have hnamed := hid.not_named
    rw [mem_pointIds_iff, not_or] at hnamed
    refine References.exists_fold_of_isPoint hpoint hid.not_center hid.not_vertex
      (fun p hp hname => hnamed.1 ⟨p, hp, hname⟩) fun f hf hfolded => hnamed.2 ?_
    exact List.any_eq_true.mpr ⟨f, hf, by simpa using hfolded⟩
  · change fig.answer setting [] ⟨true, id⟩ = _
    rw [answer_eq, locateBy, hid.referent_eq hfig]
    rfl
  · exact exists_mapM_eq_ok fun a ha => (hfound a (he a ha).2).1
  · intro setting x hfail
    obtain ⟨a, ha, hunknown⟩ := exists_error_of_mapM_eq_error hfail
    exact (hfound a (he a ha).2).2 setting x hunknown

/-- A square that is folded once, and has another fold that turns nothing. -/
def looseSquare : Model Float where
  solid := ⟨.square, none, none⟩
  points := [⟨"M", .midpoint, some ["A", "B"], none, none, none, none, none⟩]
  folds := [⟨"turn", ("M", "C"), ["D"], ["D'"], none, none⟩,
    ⟨"loose", ("X", "Y"), [], [], none, none⟩]
  measurements := []
  parameters := []

/-- The image of a corner and the hinge that it is turned about are located. -/
theorem locate_of_isPoint_folded :
    ∃ fig survey, looseSquare.figure = .ok fig ∧ fig.survey .none = .ok survey ∧
      (References.ofModel looseSquare).isPoint "C" = true ∧ ¬ fig.IsIdle "C" ∧
      ∃ anchors,
        (⟨"fold", highlightColor, .path "D'" "C"⟩ : Element Float).locate fig .none =
          .ok anchors := by
  let fig : Figure Float := ⟨looseSquare, (looseSquare.solid.vertices?).getD .empty⟩
  obtain ⟨survey, hsurvey⟩ : ∃ survey, fig.survey .none = .ok survey :=
    exists_ok_of_isOk (by decide +kernel)
  have hfig : looseSquare.figure = .ok fig := rfl
  have hC : ¬ fig.IsIdle "C" := fun hidle => hidle.not_vertex (by decide +kernel)
  have hD : ¬ fig.IsIdle "D'" := fun hidle => hidle.not_named (by decide +kernel)
  have hpoint : (References.ofModel looseSquare).isPoint "C" = true := by decide +kernel
  refine ⟨fig, survey, hfig, hsurvey, hpoint, hC, ?_⟩
  refine ((locate_of_isPoint hfig hsurvey).2 _ fun a ha => ?_).1
  rcases List.mem_pair.mp ha with rfl | rfl
  · exact ⟨by decide +kernel, hD⟩
  · exact ⟨hpoint, hC⟩

/-- The hinge of a fold that turns nothing is a point to a review, and to no one else. -/
theorem exists_isPoint_not_located :
    ∃ fig survey, looseSquare.figure = .ok fig ∧ fig.survey .none = .ok survey ∧
      (References.ofModel looseSquare).isPoint "X" = true ∧
      fig.locate .none "X" = .error (.unknownPoint "X") := by
  let fig : Figure Float := ⟨looseSquare, (looseSquare.solid.vertices?).getD .empty⟩
  obtain ⟨survey, hsurvey⟩ : ∃ survey, fig.survey .none = .ok survey :=
    exists_ok_of_isOk (by decide +kernel)
  exact ⟨fig, survey, rfl, hsurvey, by decide +kernel, by decide +kernel⟩

end Figure

end Storyboard
