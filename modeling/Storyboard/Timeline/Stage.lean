import Storyboard.Model.Basic
import Storyboard.Timeline.Basic

/-!
# Stage

What one scene hands on to the next: which targets are visible, and the
opacities, parameters and angles that have been set.  Highlights are not handed
on.  Every segment begins with keyframes that set up what it was handed.
-/

namespace Storyboard

/-- What stands on the stage between two scenes. -/
structure Stage (α : Type) where
  visible : OrderedSet String
  opacities : OrderedMap String α
  parameters : OrderedMap String α
  angles : OrderedMap String α
  deriving Inhabited

namespace Keyframe

variable {α : Type}

/-- A truth value at a time. -/
def flag (time : α) (b : Bool) : Keyframe α := ⟨time, .bool b, none⟩

/-- A number at a time. -/
def number (time x : α) : Keyframe α := ⟨time, .number x, none⟩

/-- A number at a time, reached along a curve. -/
def eased (time x : α) (easing : Easing) : Keyframe α := ⟨time, .number x, some easing⟩

/-- A highlight at a time. -/
def color (time : α) (c : String) : Keyframe α := ⟨time, .color c, none⟩

/-- The end of a highlight at a time. -/
def clear (time : α) : Keyframe α := ⟨time, .null, none⟩

end Keyframe

/-- A keyframe written to a channel. -/
abbrev Write (α : Type) := Channel × Keyframe α

namespace Stage

variable {α : Type} [Scalar α]

/--
The stage before the first scene: vertices, declared and folded points are
visible, and parameters and angles stand where the model puts them.
-/
def initial (m : Model α) : Stage α where
  visible := OrderedSet.ofElements
    (m.solid.kind.vertexIds ++ m.points.map (fun p => p.id) ++ m.foldedPoints)
  opacities := OrderedMap.empty
  parameters := OrderedMap.ofList (m.parameters.map fun p => (p.id, p.initial))
  angles := OrderedMap.ofList (m.folds.map fun f => (f.id, m.initialAngle f))

/-- The setting under which points are located on a stage. -/
def setting (stage : Stage α) : Setting α := ⟨stage.parameters, stage.angles⟩

/-- Keyframes at the start of a scene that set the numbers of a property. -/
def opening (property : Property) (values : OrderedMap String α) : List (Write α) :=
  values.entries.map fun e => (⟨property, e.1⟩, .number 0 e.2)

/-- The keyframes at the start of a scene that set up a stage. -/
def writes (stage : Stage α) : List (Write α) :=
  (stage.visible.keys.map fun id => (⟨.visibility, id⟩, .flag 0 true)) ++
    opening .opacity stage.opacities ++ opening .parameter stage.parameters ++
    opening .angle stage.angles

end Stage

end Storyboard
