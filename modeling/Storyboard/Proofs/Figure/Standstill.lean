import Storyboard.Figure.Movement
import Storyboard.Number.Double
import Storyboard.Proofs.Figure.LookUp
import Storyboard.Proofs.OrderedMap

/-!
# Points that stand still

The question whether a point can move follows all references of a declaration, whether
or not its kind makes use of them, and knows nothing of settings.  If the answer is no
then the point is located alike under any two settings, down to the fault if there is
one: no fold and no parameter is met on the way.
-/

namespace Storyboard

variable {α : Type}

/-! ## What a declaration refers to -/

namespace NamedPoint

/-- A recipe looks up only points that the declaration refers to. -/
theorem points_subset_references {p : NamedPoint α} {recipe : Recipe α}
    (h : p.recipe = .ok recipe) : recipe.points ⊆ p.references := by
  unfold NamedPoint.recipe at h
  unfold references
  split at h
  next =>
    cases h
    exact List.nil_subset _
  next =>
    split at h
    next a b hof =>
      cases h
      simp [Recipe.points, hof]
    next => cases h
  next =>
    split at h
    next a b ratio hstart hfinish hratio =>
      cases h
      simp [Recipe.points, hstart, hfinish]
    next => cases h
  next =>
    split at h
    next a b param hstart hfinish hparam =>
      cases h
      simp [Recipe.points, hstart, hfinish]
    next => cases h
  next =>
    split at h
    next first others hpoints =>
      cases h
      rw [hpoints]
      exact List.subset_append_of_subset_right _ (List.Subset.refl _)
    next => cases h

theorem uses_subset_references (p : NamedPoint α) : p.uses ⊆ p.references := by
  unfold uses
  split
  next recipe hrecipe => exact points_subset_references hrecipe
  next => exact List.nil_subset _

/-- Only a point that is declared on a segment looks a parameter up. -/
theorem kind_of_onSegment {p : NamedPoint α} {a b param : String}
    (h : p.recipe = .ok (.onSegment a b param)) : p.kind = .onSegment := by
  unfold recipe at h
  split at h
  all_goals try split at h
  all_goals cases h
  assumption

end NamedPoint

namespace Figure

theorem foldOnto?_eq_none_iff {fig : Figure α} {id : String} :
    fig.foldOnto? id = none ↔ fig.isFolded id = false := by
  unfold foldOnto? isFolded
  rw [List.findSome?_eq_none_iff, List.any_eq_false]
  apply forall₂_congr
  intro f _
  rw [Option.map_eq_none_iff, List.findIdx?_eq_none_iff, List.contains_iff_mem]
  constructor
  · intro h hmem
    simpa using h id hmem
  · intro h other hother
    rw [beq_eq_false_iff_ne]
    rintro rfl
    exact h hother

/-! ## Answers under two settings -/

section Settings

variable {fig : Figure α}

/-- A declared point that is on no segment is placed alike by the same answers. -/
theorem placeBy_congr [Analytic α] {p : NamedPoint α} (hkind : p.kind ≠ .onSegment)
    {look look' : String → Except Fault (Vec α)} (h : ∀ id ∈ p.uses, look id = look' id)
    (setting setting' : Setting α) :
    fig.placeBy setting p look = fig.placeBy setting' p look' := by
  unfold NamedPoint.uses at h
  unfold placeBy
  cases hrecipe : p.recipe with
  | error fault => rfl
  | ok recipe =>
      rw [hrecipe] at h
      cases recipe with
      | vertex id => rfl
      | midpoint a b | ratio a b ratio =>
          dsimp only [followBy, pairBy]
          rw [h a (by simp [Recipe.points]), h b (by simp [Recipe.points])]
      | onSegment a b param => exact absurd (NamedPoint.kind_of_onSegment hrecipe) hkind
      | center points =>
          have hpoints : points.mapM look = points.mapM look' := mapM_congr h
          dsimp only [followBy]
          rw [hpoints]

/-- What does not move is the origin, a vertex, or placed by what does not move. -/
theorem movesIn_eq_false {chain : List String} {id : String}
    (h : fig.movesIn chain id = .ok false) :
    id = centerId ∨ fig.isFolded id = false ∧
      (fig.vertices.contains id = true ∨ ∃ p, fig.definition? id = some p ∧
        p.kind ≠ .onSegment ∧ id ∉ chain ∧
        ∀ r ∈ p.references, fig.movesIn (chain ++ [id]) r = .ok false) := by
  rw [movesIn] at h
  split at h
  next hcenter => exact Or.inl hcenter
  next hcenter =>
    split at h
    next => cases h
    next hfolded =>
      refine Or.inr ⟨eq_false_of_ne_true hfolded, ?_⟩
      split at h
      next hvertex => exact Or.inl hvertex
      next hvertex =>
        split at h
        next => cases h
        next p hdef =>
          split_ifs at h with hkind hchain
          · cases h
          · exact Or.inr ⟨p, hdef, hkind, hchain, forall_of_anyM_eq_false h⟩

theorem answer_eq_of_movesIn [Analytic α] {chain : List String} {id : String}
    (h : fig.movesIn chain id = .ok false) (setting setting' : Setting α) :
    fig.answer setting chain ⟨true, id⟩ = fig.answer setting' chain ⟨true, id⟩ := by
  induction hcount : fig.unplaced chain using Nat.strongRecOn generalizing chain id with
  | _ count ih =>
      subst hcount
      rw [answer_eq, answer_eq, locateBy, locateBy]
      cases href : fig.referent ⟨true, id⟩ with
      | origin | vertex v | unknown => rfl
      | turned f k =>
          obtain ⟨hcenter, -, hfold⟩ := referent_eq_turned_iff.mp href
          rcases movesIn_eq_false h with rfl | ⟨hstill, -⟩
          · exact absurd rfl hcenter
          · rw [foldOnto?_eq_none_iff.mpr hstill] at hfold
            cases hfold
      | declared p =>
          obtain ⟨hcenter, -, hvertex, hdef⟩ := referent_eq_declared_iff.mp href
          rcases movesIn_eq_false h with rfl | ⟨-, hcontains | ⟨p', hdef', hkind, hchain, hstill⟩⟩
          · exact absurd rfl hcenter
          · rw [OrderedMap.contains_eq_isSome, hvertex] at hcontains
            cases hcontains
          · obtain rfl : p = p' := Option.some_inj.mp (hdef.symm.trans hdef')
            dsimp only
            rw [if_neg hchain, if_neg hchain]
            apply placeBy_congr hkind
            intro r hr
            exact ih _ (unplaced_lt hdef hchain) (hstill r (p.uses_subset_references hr)) rfl

end Settings

/--
A point that does not move has the same coordinates, or the same fault, under any two
settings of the parameters and the folds.
-/
theorem locate_eq_of_moves_eq_false [Analytic α] {fig : Figure α} {id : String}
    (h : fig.moves id = .ok false) (setting setting' : Setting α) :
    fig.locate setting id = fig.locate setting' id :=
  answer_eq_of_movesIn h setting setting'

/-- A cube with a point on an edge and one in the middle of another edge. -/
def slidingCube : Model Float where
  solid := ⟨.cube, none, none⟩
  points := [
    ⟨"S", .onSegment, none, some "A", some "B", none, some "t", none⟩,
    ⟨"M", .midpoint, some ["A", "C"], none, none, none, none, none⟩]
  folds := [⟨"turn", ("A", "B"), ["D"], ["D'"], none, none⟩]
  measurements := []
  parameters := [⟨"t", 0, 1, 0.5⟩]

theorem locate_eq_of_moves_eq_false_sliding :
    ∃ fig, slidingCube.figure = .ok fig ∧ fig.moves "S" = .ok true ∧
      fig.moves "M" = .ok false ∧
      fig.locate .none "M" =
        fig.locate ⟨.ofList [("t", 0.25)], .ofList [("turn", 90)]⟩ "M" := by
  let fig : Figure Float := ⟨slidingCube, (slidingCube.solid.vertices?).getD .empty⟩
  have hM : fig.moves "M" = .ok false := by decide +kernel
  exact ⟨fig, rfl, by decide +kernel, hM, locate_eq_of_moves_eq_false hM _ _⟩

end Figure

end Storyboard
