import Storyboard.Figure.Passage

/-!
# Location of points

The coordinates of a point by its name.  A name is looked for as the origin,
as the image of a point under a fold, as a vertex of the solid, and as a
declared point, which is placed by the points it refers to.

The declared points that are being placed form a *chain*; a point that is met
again in its own chain is cyclic.  The source and the hinge of a fold are looked
up with folds off, so that no fold is entered from itself.  Every declared point
enters the chain once, and after a fold comes a name that is looked up without
one, which bounds the descent.
-/

namespace Storyboard

/-- The common fractions that a ratio may be meant for. -/
def commonFractions {α : Type} [Scalar α] : List α :=
  [1 / 2.0, 1 / 3.0, 2.0 / 3.0, 1 / 4.0, 3.0 / 4.0]

/-- A ratio within half a thousandth of a common fraction is that fraction. -/
def intendedRatio {α : Type} [Scalar α] (value : α) : α :=
  (commonFractions.find? fun r => decide (Scalar.magnitude (value - r) ≤ 5e-4)).getD value

/-- How a declared point is placed, once all that its kind needs is there. -/
inductive Recipe (α : Type) where
  | vertex (id : String)
  | midpoint (a b : String)
  | ratio (start finish : String) (ratio : α)
  | onSegment (start finish param : String)
  | center (points : List String)

/-- The recipe of a declared point, or what it lacks. -/
def NamedPoint.recipe {α : Type} (p : NamedPoint α) : Except Fault (Recipe α) :=
  match p.kind with
  | .vertex => .ok (.vertex ((p.start.or (p.of.bind List.head?)).getD p.id))
  | .midpoint =>
    match p.of with
    | some [a, b] => .ok (.midpoint a b)
    | _ => .error (.malformed p.id "midpoint needs exactly two `of` points")
  | .ratio =>
    match p.start, p.finish, p.ratio with
    | some a, some b, some r => .ok (.ratio a b r)
    | _, _, _ => .error (.malformed p.id "ratio needs `from`, `to` and `ratio`")
  | .onSegment =>
    match p.start, p.finish, p.param with
    | some a, some b, some t => .ok (.onSegment a b t)
    | _, _, _ => .error (.malformed p.id "onSegment needs `from`, `to` and `param`")
  | .center =>
    match p.points with
    | some (q :: qs) => .ok (.center (q :: qs))
    | _ => .error (.malformed p.id "center needs at least one point")

namespace Figure

variable {α : Type}

/-- The number of declarations of points that are not in the chain. -/
def unplaced (fig : Figure α) (chain : List String) : Nat :=
  fig.model.points.countP fun p => !chain.contains p.id

theorem definition?_mem {fig : Figure α} {id : String} {p : NamedPoint α}
    (h : fig.definition? id = some p) : p ∈ fig.model.points ∧ p.id = id := by
  unfold definition? at h
  exact ⟨List.mem_reverse.1 (List.mem_of_find?_eq_some h),
    by simpa using List.find?_some h⟩

theorem unplaced_lt {fig : Figure α} {id : String} {p : NamedPoint α}
    {chain : List String} (h : fig.definition? id = some p) (hc : id ∉ chain) :
    fig.unplaced (chain ++ [id]) < fig.unplaced chain := by
  obtain ⟨hmem, rfl⟩ := definition?_mem h
  unfold unplaced
  generalize fig.model.points = points at hmem
  induction points with
  | nil => simp at hmem
  | cons q rest ih =>
    have hle : rest.countP (fun r => !(chain ++ [p.id]).contains r.id) ≤
        rest.countP (fun r => !chain.contains r.id) := by
      apply List.countP_mono_left
      intro r _ hr
      simp only [List.contains_eq_mem, List.mem_append, Bool.not_eq_true',
        decide_eq_false_iff_not, not_or] at hr ⊢
      exact hr.1
    rcases List.mem_cons.1 hmem with rfl | hrest
    · rw [List.countP_cons_of_neg (by simp), List.countP_cons_of_pos (by simpa using hc)]
      omega
    · have hlt := ih hrest
      simp only [List.countP_cons]
      have : (if (!(chain ++ [p.id]).contains q.id) = true then 1 else 0) ≤
          (if (!chain.contains q.id) = true then 1 else 0) := by
        by_cases hq : q.id ∈ chain <;> simp [hq]
        split <;> omega
      omega

section Steps

variable [Analytic α] {chain : List String}

/-- The image at a place of a fold, from three look-ups in turn. -/
def turnIn (fig : Figure α) (setting : Setting α) (f : Fold α) (place : Nat)
    (look : Passage.Look chain (Vec α)) : Passage chain (Vec α) :=
  match f.moving[place]? with
  | none =>
    .settled (.error (.malformed f.id "movingPoints and foldedPoints differ in length"))
  | some source =>
    .triple look source f.hinge.1 f.hinge.2 fun p a b =>
      match p.rotate? a b (Analytic.radians (fig.angle setting f)) with
      | some image => .ok image
      | none => .error (.malformed f.id "hinge endpoints coincide")

/-- A declared point, from the look-ups that its recipe asks for. -/
def placeIn (fig : Figure α) (setting : Setting α) (p : NamedPoint α)
    (look : Passage.Look chain (Vec α)) : Passage chain (Vec α) :=
  match p.recipe with
  | .error fault => .settled (.error fault)
  | .ok (.vertex id) => .settled (fig.vertex id)
  | .ok (.midpoint a b) => .both look a b Vec.midpoint
  | .ok (.ratio a b ratio) => .both look a b fun p q => p.along q (intendedRatio ratio)
  | .ok (.onSegment a b param) =>
    match fig.parameter? setting param with
    | none => .settled (.error (.unknownParameter param))
    | some t => .both look a b fun p q => p.along q t
  | .ok (.center points) =>
    (Passage.each look points).andThen fun placed _ _ => .settled (.ok (Vec.mean placed))

end Steps

set_option linter.unusedVariables false in
/--
The look-up of a point in a pass that has come to a chain, with or without regard to
folds for the point itself.
-/
def pass [Analytic α] (fig : Figure α) (setting : Setting α) (chain : List String)
    (folding : Bool) (id : String) : Passage chain (Vec α) :=
  if id = centerId then .settled (.ok 0)
  else
    match hfold : (if folding then fig.foldOnto? id else none) with
    | some (f, k) =>
      fig.turnIn setting f k fun chain' hchain' p => pass fig setting chain' false p
    | none =>
      match fig.vertices.get? id with
      | some v => .settled (.ok v)
      | none =>
        match hdef : fig.definition? id with
        | none => .settled (.error (.unknownPoint id))
        | some definition =>
          if hchain : id ∈ chain then .cycle id
          else
            .within id <| fig.placeIn setting definition
              fun chain' hchain' p => pass fig setting chain' true p
termination_by 2 * fig.unplaced chain + folding.toNat
decreasing_by
  · cases folding with
    | true =>
      subst hchain'
      simp
    | false => simp at hfold
  · have hlt := unplaced_lt hdef hchain
    subst hchain'
    simp only [Bool.toNat_true]
    omega

/--
The coordinates of a point within a chain of declared points that are being placed, with
or without regard to folds for the point itself.
-/
def locateIn [Analytic α] (fig : Figure α) (setting : Setting α) (chain : List String)
    (folding : Bool) (id : String) : Except Fault (Vec α) :=
  (fig.pass setting chain folding id).result

/-- The coordinates of a point under a setting. -/
def locate [Analytic α] (fig : Figure α) (setting : Setting α) (id : String) :
    Except Fault (Vec α) :=
  fig.locateIn setting [] true id

/-- The points of a list, which are located in one pass. -/
def locateAll [Analytic α] (fig : Figure α) (setting : Setting α) (ids : List String) :
    Except Fault (List (Vec α)) :=
  (Passage.each (fun chain _ id => fig.pass setting chain true id) ids :
    Passage [] (List (Vec α))).result

/-- The two ends of a segment, which are located in one pass. -/
def segment [Analytic α] (fig : Figure α) (setting : Setting α) (start finish : String) :
    Except Fault (Vec α × Vec α) :=
  (Passage.both (fun chain _ id => fig.pass setting chain true id) start finish Prod.mk :
    Passage [] (Vec α × Vec α)).result

end Figure

end Storyboard
