import Mathlib.Data.List.Forall2
import Storyboard.Figure.Measure
import Storyboard.Proofs.Figure.LookUp
import Storyboard.Proofs.OrderedMap

/-!
# Where values come from

A point is located by the vertices, the declarations, the values of parameters and
the angles of folds, and by nothing else.  So two figures that agree on these have the
same points and the same measurements, down to the faults.

A setting that covers a model gives a value for each of its parameters and an angle
for each of its folds.  Under such a setting no declared parameter is missing, and
what the model itself says about its parameters and folds makes no difference.
-/

namespace Storyboard

/-- A setting that gives all that a model declares. -/
structure Setting.Covers {α : Type} (setting : Setting α) (m : Model α) : Prop where
  parameters : ∀ p ∈ m.parameters, (setting.parameters.get? p.id).isSome = true
  angles : ∀ f ∈ m.folds, (setting.angles.get? f.id).isSome = true

/-- A model with other initial values of its parameters and other angles of its folds. -/
def Model.reset {α : Type} (m : Model α) (initial : Parameter α → α)
    (angleParam : Fold α → Option String) (defaultAngle : Fold α → Option α) : Model α :=
  { m with
    parameters := m.parameters.map fun p => { p with initial := initial p }
    folds := m.folds.map fun f =>
      { f with angleParam := angleParam f, defaultAngle := defaultAngle f } }

namespace Figure

variable {α : Type}

/-- The figure of a model with other initial values and other angles. -/
def reset (fig : Figure α) (initial : Parameter α → α) (angleParam : Fold α → Option String)
    (defaultAngle : Fold α → Option α) : Figure α :=
  { fig with model := fig.model.reset initial angleParam defaultAngle }

section Values

variable [Scalar α]

/-- Folds that turn the same points about the same hinge by the same angle. -/
structure SameFold (fig : Figure α) (setting : Setting α) (fig' : Figure α)
    (setting' : Setting α) (f f' : Fold α) : Prop where
  id : f'.id = f.id
  hinge : f'.hinge = f.hinge
  moving : f'.moving = f.moving
  folded : f'.folded = f.folded
  angle : fig'.angle setting' f' = fig.angle setting f

/-- Two figures, each under a setting, that agree on all that points are located by. -/
structure SameValues (fig : Figure α) (setting : Setting α) (fig' : Figure α)
    (setting' : Setting α) : Prop where
  vertices : fig'.vertices = fig.vertices
  points : fig'.model.points = fig.model.points
  measurements : fig'.model.measurements = fig.model.measurements
  folds : List.Forall₂ (SameFold fig setting fig' setting') fig.model.folds fig'.model.folds
  parameters : ∀ id, fig'.parameter? setting' id = fig.parameter? setting id

end Values

/-! ## Figures that agree -/

namespace SameValues

section Referents

variable [Scalar α] {fig fig' : Figure α} {setting setting' : Setting α}

theorem definition? (h : fig.SameValues setting fig' setting') (id : String) :
    fig'.definition? id = fig.definition? id := by
  rw [Figure.definition?, Figure.definition?, h.points]

/-- A point is the image under a fold of one figure exactly if it is one in the other. -/
theorem foldOnto? (h : fig.SameValues setting fig' setting') (id : String) :
    (fig.foldOnto? id = none ∧ fig'.foldOnto? id = none) ∨
      ∃ f f' k, fig.foldOnto? id = some (f, k) ∧ fig'.foldOnto? id = some (f', k) ∧
        SameFold fig setting fig' setting' f f' := by
  have hfolds := h.folds
  unfold Figure.foldOnto?
  generalize fig.model.folds = folds, fig'.model.folds = folds' at hfolds
  induction hfolds with
  | nil => exact Or.inl ⟨rfl, rfl⟩
  | @cons f f' rest rest' hf _ ih =>
      rw [List.findSome?_cons, List.findSome?_cons, hf.folded]
      cases f.folded.findIdx? (· == id) with
      | none => exact ih
      | some k => exact Or.inr ⟨f, f', k, rfl, rfl, hf⟩

/-- A name stands for the same thing in both figures, but for what its fold is declared with. -/
theorem referent (h : fig.SameValues setting fig' setting') (q : LookUp) :
    (∃ f f' k, fig.referent q = .turned f k ∧ fig'.referent q = .turned f' k ∧
      SameFold fig setting fig' setting' f f') ∨
      ((∀ f k, fig.referent q ≠ .turned f k) ∧ fig'.referent q = fig.referent q) := by
  have hplain : (if q.folding then fig.foldOnto? q.id else none) = none →
      (if q.folding then fig'.foldOnto? q.id else none) = none →
      (∀ f k, fig.referent q ≠ .turned f k) ∧ fig'.referent q = fig.referent q := by
    intro hnone hnone'
    refine ⟨fun f k href => ?_, ?_⟩
    · obtain ⟨-, hfolding, hfold⟩ := referent_eq_turned_iff.mp href
      rw [if_pos hfolding, hfold] at hnone
      cases hnone
    · rw [Figure.referent, Figure.referent, hnone, hnone', h.vertices, h.definition?]
  by_cases hcenter : q.id = centerId
  · refine Or.inr ⟨fun f k href => (referent_eq_turned_iff.mp href).1 hcenter, ?_⟩
    rw [Figure.referent, Figure.referent, if_pos hcenter, if_pos hcenter]
  · cases hfolding : q.folding with
    | false =>
        rw [hfolding] at hplain
        exact Or.inr (hplain rfl rfl)
    | true =>
        rcases h.foldOnto? q.id with ⟨hnone, hnone'⟩ | ⟨f, f', k, hf, hf', hsame⟩
        · rw [hfolding] at hplain
          exact Or.inr (hplain hnone hnone')
        · exact Or.inl ⟨f, f', k, referent_eq_turned_iff.mpr ⟨hcenter, hfolding, hf⟩,
            referent_eq_turned_iff.mpr ⟨hcenter, hfolding, hf'⟩, hsame⟩

end Referents

section Answers

variable [Analytic α] {fig fig' : Figure α} {setting setting' : Setting α}
  {look look' : String → Except Fault (Vec α)}

theorem turnBy {f f' : Fold α} (hf : SameFold fig setting fig' setting' f f') {k : Nat}
    (hlook : ∀ id ∈ f.sources k, look' id = look id) :
    fig'.turnBy setting' f' k look' = fig.turnBy setting f k look := by
  have himage : imageBy f' = (imageBy f : Option (Vec α) → Except Fault (Vec α)) := by
    funext image
    unfold imageBy
    rw [hf.id]
  rw [Figure.turnBy, Figure.turnBy, hf.moving, hf.hinge, hf.angle, hf.id, himage]
  cases hsource : f.moving[k]? with
  | none => rfl
  | some source =>
      have hsources : f.sources k = [source, f.hinge.1, f.hinge.2] := by
        rw [Fold.sources, hsource]
        rfl
      rw [hsources] at hlook
      dsimp only
      rw [hlook source (by simp), hlook f.hinge.1 (by simp), hlook f.hinge.2 (by simp)]

theorem followBy (h : fig.SameValues setting fig' setting') (recipe : Recipe α)
    (hlook : ∀ id ∈ recipe.points, look' id = look id) :
    fig'.followBy setting' recipe look' = fig.followBy setting recipe look := by
  cases recipe with
  | vertex id =>
      dsimp only [Figure.followBy]
      rw [Figure.vertex, Figure.vertex, h.vertices]
  | midpoint a b | ratio a b ratio =>
      dsimp only [Figure.followBy, pairBy]
      rw [hlook a (by simp [Recipe.points]), hlook b (by simp [Recipe.points])]
  | onSegment a b param =>
      dsimp only [Figure.followBy, pairBy]
      rw [h.parameters, hlook a (by simp [Recipe.points]), hlook b (by simp [Recipe.points])]
  | center points =>
      have hpoints : points.mapM look' = points.mapM look := mapM_congr hlook
      dsimp only [Figure.followBy]
      rw [hpoints]

theorem placeBy (h : fig.SameValues setting fig' setting') (p : NamedPoint α)
    (hlook : ∀ id ∈ p.uses, look' id = look id) :
    fig'.placeBy setting' p look' = fig.placeBy setting p look := by
  unfold NamedPoint.uses at hlook
  unfold Figure.placeBy
  cases hrecipe : p.recipe with
  | error fault => rfl
  | ok recipe =>
      rw [hrecipe] at hlook
      exact h.followBy recipe hlook

/-- Every look-up has the same answer in both figures. -/
theorem answer (h : fig.SameValues setting fig' setting') (chain : List String) (q : LookUp) :
    fig'.answer setting' chain q = fig.answer setting chain q := by
  induction hdepth : fig.depth chain q using Nat.strongRecOn generalizing chain q with
  | _ depth ih =>
      subst hdepth
      -- a fold is met by both figures at once, though it may be declared in two ways
      rcases h.referent q with ⟨f, f', k, href, href', hf⟩ | ⟨hplain, hsame⟩
      · rw [answer_of_turned href, answer_of_turned href']
        refine turnBy hf ?_
        intro id hid
        exact ih _ (Asks.turned href hid).depth_lt chain ⟨false, id⟩ rfl
      · cases href : fig.referent q with
        | turned f k => exact absurd href (hplain f k)
        | declared p =>
            rw [href] at hsame
            rw [answer_of_declared href, answer_of_declared hsame]
            split_ifs with hchain
            · rfl
            · refine h.placeBy p ?_
              intro id hid
              exact ih _ (Asks.declared href hchain hid).depth_lt _ ⟨true, id⟩ rfl
        | origin | vertex v | unknown => rw [answer_eq, answer_eq, locateBy, locateBy, hsame, href]

theorem locate (h : fig.SameValues setting fig' setting') (id : String) :
    fig'.locate setting' id = fig.locate setting id :=
  h.answer [] ⟨true, id⟩

theorem measure (h : fig.SameValues setting fig' setting') (id : String) :
    fig'.measure setting' id = fig.measure setting id := by
  have hlocate : fig'.locate setting' = fig.locate setting := funext h.locate
  simp only [Figure.measure, measurement?, h.measurements, locateAll_eq, hlocate]

end Answers

end SameValues

/-- Settings in which the same can be looked up give the same values. -/
theorem sameValues_of_get?_eq [Scalar α] (fig : Figure α) {setting setting' : Setting α}
    (hparameters : ∀ id, setting'.parameters.get? id = setting.parameters.get? id)
    (hangles : ∀ id, setting'.angles.get? id = setting.angles.get? id) :
    fig.SameValues setting fig setting' := by
  have hparameter : ∀ id, fig.parameter? setting' id = fig.parameter? setting id := by
    intro id
    rw [parameter?, parameter?, hparameters]
  have hangle : ∀ f, fig.angle setting' f = fig.angle setting f := by
    intro f
    have hbind : f.angleParam.bind (fig.parameter? setting') =
        f.angleParam.bind (fig.parameter? setting) := by
      rw [funext hparameter]
    rw [angle, angle, hangles, hbind]
  refine ⟨rfl, rfl, rfl, List.forall₂_same.mpr fun f _ => ?_, hparameter⟩
  exact ⟨rfl, rfl, rfl, rfl, hangle f⟩

/-! ## Settings that cover the model -/

theorem parameter?_of_get? {fig : Figure α} {setting : Setting α} {id : String} {x : α}
    (h : setting.parameters.get? id = some x) : fig.parameter? setting id = some x := by
  rw [parameter?, h]

theorem angle_of_get? [Scalar α] {fig : Figure α} {setting : Setting α} {f : Fold α} {x : α}
    (h : setting.angles.get? f.id = some x) : fig.angle setting f = x := by
  rw [angle, h]

/-- Under a setting that covers the model nothing depends on what the model says itself. -/
theorem sameValues_reset [Scalar α] {fig : Figure α} {setting : Setting α}
    (h : setting.Covers fig.model) (initial : Parameter α → α)
    (angleParam : Fold α → Option String) (defaultAngle : Fold α → Option α) :
    fig.SameValues setting (fig.reset initial angleParam defaultAngle) setting := by
  refine ⟨rfl, rfl, rfl, ?_, fun id => ?_⟩
  · have hfolds : ∀ f ∈ fig.model.folds, SameFold fig setting
        (fig.reset initial angleParam defaultAngle) setting f
        { f with angleParam := angleParam f, defaultAngle := defaultAngle f } := by
      intro f hf
      obtain ⟨x, hx⟩ := Option.isSome_iff_exists.mp (h.angles f hf)
      have hangle : (fig.reset initial angleParam defaultAngle).angle setting
          { f with angleParam := angleParam f, defaultAngle := defaultAngle f } = x :=
        angle_of_get? hx
      exact ⟨rfl, rfl, rfl, rfl, hangle.trans (angle_of_get? hx).symm⟩
    exact List.forall₂_map_right_iff.mpr (List.forall₂_same.mpr hfolds)
  · cases hget : setting.parameters.get? id with
    | some x => rw [parameter?_of_get? hget, parameter?_of_get? hget]
    | none =>
        have hnone : ∀ p ∈ fig.model.parameters, p.id ≠ id := by
          rintro p hp rfl
          have hsome := h.parameters p hp
          rw [hget] at hsome
          cases hsome
        have hfind : (fig.model.parameters.reverse.find? fun p => p.id == id) = none := by
          rw [List.find?_eq_none]
          intro p hp
          simpa using hnone p (List.mem_reverse.mp hp)
        have hfind' : ((fig.reset initial angleParam defaultAngle).model.parameters.reverse.find?
            fun p => p.id == id) = none := by
          rw [List.find?_eq_none]
          intro p hp
          obtain ⟨q, hq, rfl⟩ := List.mem_map.mp (List.mem_reverse.mp hp)
          simpa using hnone q hq
        rw [parameter?, parameter?, hget, hfind, hfind']

/-! ## Parameters that are missing -/

section Missing

variable [Analytic α] {fig : Figure α} {setting : Setting α}

/-- A look-up fails for want of a parameter only if the parameter has no value. -/
theorem parameter?_of_answer {param : String} (chain : List String) (q : LookUp)
    (h : fig.answer setting chain q = .error (.unknownParameter param)) :
    fig.parameter? setting param = none := by
  induction hdepth : fig.depth chain q using Nat.strongRecOn generalizing chain q with
  | _ depth ih =>
      subst hdepth
      rcases answer_eq_error h with
        hnone | ⟨-, -, -, hcycle⟩ | ⟨-, hunknown⟩ | ⟨chain', r, hasks, hfail⟩
      · exact hnone
      · cases hcycle
      · cases hunknown
      · exact ih _ hasks.depth_lt chain' r hfail rfl

theorem parameter?_of_locate {param id : String}
    (h : fig.locate setting id = .error (.unknownParameter param)) :
    fig.parameter? setting param = none :=
  parameter?_of_answer [] ⟨true, id⟩ h

/-- A measurement fails for want of a parameter only if the parameter has no value. -/
theorem parameter?_of_measure {param id : String}
    (h : fig.measure setting id = .error (.unknownParameter param)) :
    fig.parameter? setting param = none := by
  unfold measure at h
  split at h
  next => cases h
  next measurement _ =>
    rw [locateAll_eq] at h
    rcases bind_eq_error.mp h with hpoints | ⟨points, -, h⟩
    · obtain ⟨point, -, hlocate⟩ := exists_error_of_mapM_eq_error hpoints
      exact parameter?_of_locate hlocate
    · unfold Measurement.value Measurement.wrongCount at h
      split at h
      all_goals
        split at h
        all_goals cases h

end Missing

end Figure

end Storyboard
