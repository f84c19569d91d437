import Storyboard.Figure.Survey
import Storyboard.Proofs.Figure.Straying

/-!
# Surveys

A survey succeeds when all of its parts do: each point is located and the question
whether it can move has an answer, and each measurement has a value.  It then holds
exactly these parts.  The question is what sets a survey apart from the locations: it may
go astray for a point that is located.
-/

namespace Storyboard

variable {α : Type}

/-- The map of the results for some keys has the result for each of them. -/
theorem OrderedMap.get?_ofList_of_mapM {κ ν ε : Type} [DecidableEq κ] {f : κ → Except ε ν}
    {keys : List κ} {pairs : List (κ × ν)}
    (h : (keys.mapM fun k => (f k).map fun v => (k, v)) = .ok pairs) {k : κ} {v : ν} :
    (OrderedMap.ofList pairs).get? k = some v ↔ k ∈ keys ∧ f k = .ok v := by
  rw [get?_ofList_eq_some_iff, mem_of_mapM_pairs_eq_ok h]
  rintro ⟨k, v⟩ he ⟨_, v'⟩ he' rfl
  have hv := ((mem_of_mapM_pairs_eq_ok h k v).mp he).2
  have hv' := ((mem_of_mapM_pairs_eq_ok h k v').mp he').2
  exact Except.ok.inj (hv.symm.trans hv')

namespace Figure

/-- The names of the declared and the folded points. -/
def pointIds (fig : Figure α) : List String :=
  fig.model.points.map (fun p => p.id) ++ fig.model.foldedPoints

/-- The names of the measurements. -/
def measurementIds (fig : Figure α) : List String :=
  fig.model.measurements.map fun m => m.id

/-! ## The parts of a survey -/

section Parts

variable [Analytic α] {fig : Figure α} {setting : Setting α}

theorem locatedPoint_eq_ok_iff {id : String} {p : LocatedPoint α} :
    fig.locatedPoint setting id = .ok p ↔
      fig.locate setting id = .ok p.position ∧ fig.moves id = .ok p.moves := by
  obtain ⟨position, moves⟩ := p
  rw [locatedPoint, bind_eq_ok]
  constructor
  · rintro ⟨v, hv, h⟩
    obtain ⟨b, hb, h⟩ := bind_eq_ok.mp h
    cases h
    exact ⟨hv, hb⟩
  · rintro ⟨hv, hb⟩
    exact ⟨position, hv, bind_eq_ok.mpr ⟨moves, hb, rfl⟩⟩

theorem exists_locatedPoint_eq_ok_iff {id : String} :
    (∃ p, fig.locatedPoint setting id = .ok p) ↔
      (∃ v, fig.locate setting id = .ok v) ∧ ¬ fig.Strays id := by
  rw [← exists_moves_eq_ok_iff]
  constructor
  · rintro ⟨p, h⟩
    obtain ⟨hv, hb⟩ := locatedPoint_eq_ok_iff.mp h
    exact ⟨⟨_, hv⟩, ⟨_, hb⟩⟩
  · rintro ⟨⟨v, hv⟩, ⟨b, hb⟩⟩
    exact ⟨⟨v, b⟩, locatedPoint_eq_ok_iff.mpr ⟨hv, hb⟩⟩

/-- A survey is made of the results for all points and for all measurements. -/
theorem survey_eq_ok_iff {survey : Survey α} :
    fig.survey setting = .ok survey ↔
      ∃ points measurements,
        ((OrderedSet.ofElements fig.pointIds).keys.mapM fun id =>
          (fig.locatedPoint setting id).map fun p => (id, p)) = .ok points ∧
        (fig.measurementIds.mapM fun id =>
          (fig.measure setting id).map fun x => (id, x)) = .ok measurements ∧
        survey = ⟨fig.vertices, OrderedMap.ofList points, OrderedMap.ofList measurements,
          fig.model.solid.kind.edges, fig.model.solid.kind.faces⟩ := by
  rw [measurementIds, List.mapM_map]
  constructor
  · intro h
    obtain ⟨points, hpoints, h⟩ := bind_eq_ok.mp h
    obtain ⟨measurements, hmeasurements, h⟩ := bind_eq_ok.mp h
    cases h
    exact ⟨points, measurements, hpoints, hmeasurements, rfl⟩
  · rintro ⟨points, measurements, hpoints, hmeasurements, rfl⟩
    exact bind_eq_ok.mpr ⟨points, hpoints, bind_eq_ok.mpr ⟨measurements, hmeasurements, rfl⟩⟩

theorem exists_survey_eq_ok_iff :
    (∃ survey, fig.survey setting = .ok survey) ↔
      (∀ id ∈ fig.pointIds, (∃ v, fig.locate setting id = .ok v) ∧ ¬ fig.Strays id) ∧
      ∀ id ∈ fig.measurementIds, ∃ x, fig.measure setting id = .ok x := by
  simp only [survey_eq_ok_iff, ← exists_locatedPoint_eq_ok_iff,
    ← OrderedSet.mem_keys_ofElements (l := fig.pointIds), ← exists_mapM_pairs_eq_ok_iff]
  constructor
  · rintro ⟨survey, points, measurements, hpoints, hmeasurements, -⟩
    exact ⟨⟨points, hpoints⟩, ⟨measurements, hmeasurements⟩⟩
  · rintro ⟨⟨points, hpoints⟩, ⟨measurements, hmeasurements⟩⟩
    exact ⟨_, points, measurements, hpoints, hmeasurements, rfl⟩

end Parts

/--
A survey succeeds exactly if each point is located, the question whether it can move does
not go astray, and each measurement has a value.  It then has each point once, where it is
located and with the answer to the question, and each measurement with its value.  If the
question goes astray for a point that is located, then on the way a reference is consulted
that the kind of its declaration makes no use of.
-/
theorem survey_succeeds_iff [Analytic α] (fig : Figure α) (setting : Setting α) :
    ((∃ survey, fig.survey setting = .ok survey) ↔
      (∀ id ∈ fig.pointIds, (∃ v, fig.locate setting id = .ok v) ∧ ¬ fig.Strays id) ∧
      ∀ id ∈ fig.measurementIds, ∃ x, fig.measure setting id = .ok x) ∧
    (∀ survey, fig.survey setting = .ok survey →
      survey.points.keys.Nodup ∧
      (∀ id p, survey.points.get? id = some p ↔
        id ∈ fig.pointIds ∧ fig.locate setting id = .ok p.position ∧
          fig.moves id = .ok p.moves) ∧
      ∀ id x, survey.measurements.get? id = some x ↔
        id ∈ fig.measurementIds ∧ fig.measure setting id = .ok x) ∧
    ∀ id,
      ((∃ b, fig.moves id = .ok b) ↔ ¬ fig.Strays id) ∧
      (∀ b, fig.moves id = .ok b → (b = false ↔ fig.Still id)) ∧
      ∀ v, fig.locate setting id = .ok v → fig.Strays id →
        ∃ x p r, Relation.ReflTransGen fig.Consults id x ∧ fig.definition? x = some p ∧
          fig.Consults x r ∧ r ∉ p.uses ∧ fig.Strays r := by
  refine ⟨exists_survey_eq_ok_iff, ?_, ?_⟩
  · intro survey h
    obtain ⟨points, measurements, hpoints, hmeasurements, rfl⟩ := survey_eq_ok_iff.mp h
    refine ⟨OrderedMap.nodup _, fun id p => ?_, fun id x => ?_⟩
    · rw [OrderedMap.get?_ofList_of_mapM hpoints, OrderedSet.mem_keys_ofElements,
        locatedPoint_eq_ok_iff]
    · exact OrderedMap.get?_ofList_of_mapM hmeasurements
  · intro id
    exact ⟨exists_moves_eq_ok_iff, fun _ hb => eq_false_iff_still_of_movesIn hb,
      fun _ hv => exists_unused_of_strays hv⟩

/-- A square with the middle of an edge, which may refer to one more point. -/
def middledSquare (start : Option String) : Model Float where
  solid := ⟨.square, none, none⟩
  points := [⟨"M", .midpoint, some ["A", "B"], start, none, none, none, none⟩]
  folds := []
  measurements := [⟨"half", .distance, ["A", "M"]⟩]
  parameters := []

/-- The middle of an edge is surveyed, and does not move. -/
theorem survey_succeeds_iff_middled :
    ∃ fig survey, (middledSquare none).figure = .ok fig ∧ fig.survey .none = .ok survey ∧
      survey.points.get? "M" = some ⟨⟨0, -0.5, 0⟩, false⟩ ∧ fig.Still "M" := by
  let fig : Figure Float :=
    ⟨middledSquare none, ((middledSquare none).solid.vertices?).getD .empty⟩
  have hM : fig.locate .none "M" = .ok ⟨0, -0.5, 0⟩ := by decide +kernel
  have hmoves : fig.moves "M" = .ok false := by decide +kernel
  obtain ⟨x, hhalf⟩ : ∃ x, fig.measure .none "half" = .ok x :=
    exists_ok_of_isOk (by decide +kernel)
  obtain ⟨hsucceeds, hparts, hmotion⟩ := survey_succeeds_iff fig .none
  obtain ⟨hanswer, hstill, -⟩ := hmotion "M"
  obtain ⟨survey, hsurvey⟩ : ∃ survey, fig.survey .none = .ok survey := by
    refine hsucceeds.mpr ⟨fun id hid => ?_, fun id hid => ?_⟩
    · obtain rfl : id = "M" := List.mem_singleton.mp hid
      exact ⟨⟨_, hM⟩, hanswer.mp ⟨false, hmoves⟩⟩
    · obtain rfl : id = "half" := List.mem_singleton.mp hid
      exact ⟨x, hhalf⟩
  refine ⟨fig, survey, rfl, hsurvey, ?_, (hstill false hmoves).mp rfl⟩
  exact ((hparts survey hsurvey).2.1 "M" ⟨⟨0, -0.5, 0⟩, false⟩).mpr
    ⟨List.mem_singleton.mpr rfl, hM, hmoves⟩

/-- A reference that a midpoint has no use for makes a survey fail of which all is located. -/
theorem exists_survey_fails_of_located :
    ∃ fig, (middledSquare (some "nope")).figure = .ok fig ∧
      (∀ id ∈ fig.pointIds, ∃ v, fig.locate .none id = .ok v) ∧
      (∀ id ∈ fig.measurementIds, ∃ x, fig.measure .none id = .ok x) ∧
      fig.moves "M" = .error (.unknownPoint "nope") ∧
      ¬ ∃ survey, fig.survey .none = .ok survey := by
  let fig : Figure Float :=
    ⟨middledSquare (some "nope"), ((middledSquare (some "nope")).solid.vertices?).getD .empty⟩
  have hmoves : fig.moves "M" = .error (.unknownPoint "nope") := by decide +kernel
  refine ⟨fig, rfl, fun id hid => ?_, fun id hid => ?_, hmoves, fun hsurvey => ?_⟩
  · obtain rfl : id = "M" := List.mem_singleton.mp hid
    exact exists_ok_of_isOk (by decide +kernel)
  · obtain rfl : id = "half" := List.mem_singleton.mp hid
    exact exists_ok_of_isOk (by decide +kernel)
  · have hstrays := ((exists_survey_eq_ok_iff.mp hsurvey).1 "M" (List.mem_singleton.mpr rfl)).2
    obtain ⟨b, hb⟩ := exists_moves_eq_ok_iff.mpr hstrays
    cases hmoves.symm.trans hb

end Figure

end Storyboard
