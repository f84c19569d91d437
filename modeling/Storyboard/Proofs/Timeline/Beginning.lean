import Mathlib.Data.List.Nodup
import Storyboard.Proofs.Figure.Values
import Storyboard.Timeline.Stage

/-!
# The beginning

The first stage puts every parameter and every fold where the model has them, so that
nothing is left to a default.  For each name it goes by the last declaration.  So do
figures for the value of a parameter.  But the angle of a fold is told by the first
declaration of its parameter, and a figure that is given no angle asks each fold for its
own.  Where no name is declared twice all of these are the same, and on the first stage
everything is where it is without any setting.
-/

namespace Storyboard

/-! ## Declarations by name -/

/-- The map of a list of declarations has what the last declaration of a name says. -/
theorem OrderedMap.get?_ofList_map {β ν κ : Type} [DecidableEq κ] (name : β → κ) (value : β → ν)
    (l : List β) (k : κ) :
    (ofList (l.map fun b => (name b, value b))).get? k =
      (l.reverse.find? fun b => name b == k).map value := by
  have hlast := get?_insertAll empty (l.map fun b => (name b, value b)) k
  rw [← List.map_reverse, List.find?_map, Option.map_map] at hlast
  exact hlast.trans Option.or_none

/-- A declaration is found by its name if no other one has it. -/
theorem find?_name_of_mem {β : Type} {name : β → String} {l : List β}
    (h : (l.map name).Nodup) {b : β} (hb : b ∈ l) :
    (l.find? fun b' => name b' == name b) = some b := by
  obtain ⟨b', hfind⟩ := Option.isSome_iff_exists.mp
    (List.find?_isSome.mpr ⟨b, hb, beq_self_eq_true _⟩ :
      (l.find? fun b' => name b' == name b).isSome = true)
  have hname : name b' = name b := by simpa using List.find?_some hfind
  rw [hfind, List.inj_on_of_nodup_map h (List.mem_of_find?_eq_some hfind) hb hname]

/-- The first declaration of a name is the last one if no name is declared twice. -/
theorem find?_name_reverse {β : Type} {name : β → String} {l : List β}
    (h : (l.map name).Nodup) (id : String) :
    (l.reverse.find? fun b => name b == id) = l.find? fun b => name b == id := by
  have hreverse : (l.reverse.map name).Nodup := by
    rw [List.map_reverse]
    exact List.nodup_reverse.mpr h
  cases hfind : l.find? fun b => name b == id with
  | none =>
      rw [List.find?_eq_none] at hfind ⊢
      exact fun b hb => hfind b (List.mem_reverse.mp hb)
  | some b =>
      obtain rfl : name b = id := by simpa using List.find?_some hfind
      exact find?_name_of_mem hreverse (List.mem_reverse.mpr (List.mem_of_find?_eq_some hfind))

/-- The map of declarations of different names has what each of them says. -/
theorem OrderedMap.get?_ofList_map_of_mem {β ν : Type} {name : β → String} {l : List β}
    (h : (l.map name).Nodup) (value : β → ν) {b : β} (hb : b ∈ l) :
    (ofList (l.map fun b' => (name b', value b'))).get? (name b) = some (value b) := by
  rw [get?_ofList_map, find?_name_reverse h, find?_name_of_mem h hb]
  rfl

/-! ## What the first stage holds -/

namespace Stage

variable {α : Type} [Scalar α]

theorem get?_parameters_initial (m : Model α) (id : String) :
    (initial m).parameters.get? id =
      (m.parameters.reverse.find? fun p => p.id == id).map Parameter.initial :=
  OrderedMap.get?_ofList_map Parameter.id Parameter.initial m.parameters id

variable {m : Model α}

theorem get?_parameters_initial_of_mem (h : (m.parameters.map Parameter.id).Nodup)
    {p : Parameter α} (hp : p ∈ m.parameters) :
    (initial m).parameters.get? p.id = some p.initial :=
  OrderedMap.get?_ofList_map_of_mem h Parameter.initial hp

theorem get?_angles_initial_of_mem (h : (m.folds.map Fold.id).Nodup) {f : Fold α}
    (hf : f ∈ m.folds) : (initial m).angles.get? f.id = some (m.initialAngle f) :=
  OrderedMap.get?_ofList_map_of_mem h m.initialAngle hf

end Stage

/-! ## Figures on the first stage -/

namespace Figure

theorem parameter?_none {α : Type} {fig : Figure α} (id : String) :
    fig.parameter? Setting.none id =
      (fig.model.parameters.reverse.find? fun p => p.id == id).map Parameter.initial := rfl

section Values

variable {α : Type} [Scalar α] {fig : Figure α}

/-- A parameter has on the first stage the value that it has anyway. -/
theorem parameter?_initial (id : String) :
    fig.parameter? (Stage.initial fig.model).setting id = fig.parameter? Setting.none id := by
  have hget : (Stage.initial fig.model).setting.parameters.get? id =
      fig.parameter? Setting.none id := Stage.get?_parameters_initial fig.model id
  cases hvalue : fig.parameter? Setting.none id with
  | some x => exact parameter?_of_get? (hget.trans hvalue)
  | none =>
      rw [hvalue] at hget
      rw [parameter?, hget]
      exact hvalue

/-- What the model says of the angle of a fold is what the figure finds without a setting. -/
theorem angle_none (hparameters : (fig.model.parameters.map Parameter.id).Nodup) (f : Fold α) :
    fig.angle Setting.none f = fig.model.initialAngle f := by
  have hvalue : f.angleParam.bind (fig.parameter? Setting.none) =
      (f.angleParam.bind fig.model.parameter?).map Parameter.initial := by
    cases f.angleParam with
    | none => rfl
    | some id =>
        change fig.parameter? Setting.none id = _
        rw [parameter?_none, find?_name_reverse hparameters]
        rfl
  have hget : (Setting.none : Setting α).angles.get? f.id = none := rfl
  rw [angle, hget, hvalue, Model.initialAngle]
  cases f.angleParam.bind fig.model.parameter? <;> rfl

/-- A fold has on the first stage the angle that it has anyway. -/
theorem angle_initial (hparameters : (fig.model.parameters.map Parameter.id).Nodup)
    (hfolds : (fig.model.folds.map Fold.id).Nodup) {f : Fold α} (hf : f ∈ fig.model.folds) :
    fig.angle (Stage.initial fig.model).setting f = fig.angle Setting.none f := by
  have hget : (Stage.initial fig.model).setting.angles.get? f.id =
      some (fig.model.initialAngle f) := Stage.get?_angles_initial_of_mem hfolds hf
  rw [angle_of_get? hget, angle_none hparameters]

/-- Without any setting a figure agrees with itself on the first stage. -/
theorem sameValues_initial (hparameters : (fig.model.parameters.map Parameter.id).Nodup)
    (hfolds : (fig.model.folds.map Fold.id).Nodup) :
    fig.SameValues Setting.none fig (Stage.initial fig.model).setting := by
  refine ⟨rfl, rfl, rfl, List.forall₂_same.mpr fun f hf => ?_, parameter?_initial⟩
  exact ⟨rfl, rfl, rfl, rfl, angle_initial hparameters hfolds hf⟩

end Values

/--
If no parameter and no fold of a model is declared twice, every point and every
measurement has on the first stage the value, or the fault, that it has without any
setting.
-/
theorem initial_stage_is_default {α : Type} [Analytic α] {m : Model α} {fig : Figure α}
    (hfig : m.figure = .ok fig) (hparameters : (m.parameters.map Parameter.id).Nodup)
    (hfolds : (m.folds.map Fold.id).Nodup) (id : String) :
    fig.locate (Stage.initial m).setting id = fig.locate Setting.none id ∧
      fig.measure (Stage.initial m).setting id = fig.measure Setting.none id := by
  obtain rfl := Model.model_of_figure hfig
  have hsame := sameValues_initial hparameters hfolds
  exact ⟨hsame.locate id, hsame.measure id⟩

/-- A square that is folded about a diagonal by the parameter that also slides a point. -/
def drivenSquare {α : Type} [Scalar α] : Model α where
  solid := ⟨.square, none, none⟩
  points := [⟨"P", .onSegment, none, some "A", some "C", none, some "t", none⟩]
  folds := [⟨"turn", ("B", "D"), ["A"], ["E"], some "t", none⟩]
  measurements := [⟨"gap", .distance, ["E", "P"]⟩]
  parameters := [⟨"t", 0, 1, 0.5⟩]

theorem initial_stage_is_default_driven :
    ∃ fig : Figure Float, drivenSquare.figure = .ok fig ∧
      ((drivenSquare : Model Float).parameters.map Parameter.id).Nodup ∧
      ((drivenSquare : Model Float).folds.map Fold.id).Nodup ∧
      fig.locate (Stage.initial drivenSquare).setting "E" = fig.locate Setting.none "E" ∧
      fig.measure (Stage.initial drivenSquare).setting "gap" = fig.measure Setting.none "gap" := by
  have hparameters : ((drivenSquare : Model Float).parameters.map Parameter.id).Nodup := by
    decide
  have hfolds : ((drivenSquare : Model Float).folds.map Fold.id).Nodup := by
    decide
  exact ⟨_, rfl, hparameters, hfolds, (initial_stage_is_default rfl hparameters hfolds "E").1,
    (initial_stage_is_default rfl hparameters hfolds "gap").2⟩

end Figure

end Storyboard
