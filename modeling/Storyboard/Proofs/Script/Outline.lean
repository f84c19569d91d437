import Storyboard.Proofs.Script.Traversal

/-!
# The outline of a tree of actions

What is left of a tree of actions once its steps are taken away is how they are grouped.
The grouping and the steps in document order make up the tree.  Whatever goes through
the steps of a tree leaves the grouping as it is.
-/

namespace Storyboard.Action

variable {α σ : Type}

mutual

/-- The groups of an action, with the same step in place of every other. -/
def outline : Action α → Action α
  | .step _ => .step (.reveal "")
  | .together actions => .together (outlines actions)

/-- The outlines of some actions. -/
def outlines : List (Action α) → List (Action α)
  | [] => []
  | a :: rest => outline a :: outlines rest

end

mutual

theorem outline_traverse (f : σ → Place → Step α → σ × Step α) (place : Place) (state : σ)
    (a : Action α) : outline (traverse f place state a).2 = outline a := by
  cases a with
  | step s => rw [traverse, outline, outline]
  | together actions =>
      rw [traverse_together, outline, outline, outlines_traverseFrom]

theorem outlines_traverseFrom (f : σ → Place → Step α → σ × Step α) (place : Place) (i : Nat)
    (state : σ) (actions : List (Action α)) :
    outlines (traverseFrom f place i state actions).2 = outlines actions := by
  cases actions with
  | nil => rw [traverseFrom]
  | cons a rest =>
      rw [traverseFrom_cons, outlines, outlines, outline_traverse, outlines_traverseFrom]

end

mutual

theorem length_located {place : Place} {a b : Action α} (h : outline a = outline b) :
    (located place a).length = (located place b).length := by
  cases a with
  | step s =>
      cases b with
      | step s' => rw [located, located]; rfl
      | together actions => simp [outline] at h
  | together actions =>
      cases b with
      | step s' => simp [outline] at h
      | together actions' =>
          rw [outline, outline, Action.together.injEq] at h
          rw [located, located]
          exact length_locatedFrom h

theorem length_locatedFrom {place : Place} {i : Nat} {as bs : List (Action α)}
    (h : outlines as = outlines bs) :
    (locatedFrom place i as).length = (locatedFrom place i bs).length := by
  cases as with
  | nil =>
      cases bs with
      | nil => rfl
      | cons b rest => simp [outlines] at h
  | cons a rest =>
      cases bs with
      | nil => simp [outlines] at h
      | cons b rest' =>
          rw [outlines, outlines, List.cons.injEq] at h
          rw [locatedFrom, locatedFrom, List.length_append, List.length_append,
            length_located h.1, length_locatedFrom h.2]

end

mutual

theorem eq_of_outline (place : Place) {a b : Action α} (h : outline a = outline b)
    (hsteps : located place a = located place b) : a = b := by
  cases a with
  | step s =>
      cases b with
      | step s' =>
          rw [located, located, List.singleton_inj] at hsteps
          rw [(Prod.mk.inj hsteps).2]
      | together actions => simp [outline] at h
  | together actions =>
      cases b with
      | step s' => simp [outline] at h
      | together actions' =>
          rw [outline, outline, Action.together.injEq] at h
          rw [located, located] at hsteps
          rw [eq_of_outlines place 0 h hsteps]

/-- Actions that are grouped alike and have the same steps are the same. -/
theorem eq_of_outlines (place : Place) (i : Nat) {as bs : List (Action α)}
    (h : outlines as = outlines bs)
    (hsteps : locatedFrom place i as = locatedFrom place i bs) : as = bs := by
  cases as with
  | nil =>
      cases bs with
      | nil => rfl
      | cons b rest => simp [outlines] at h
  | cons a rest =>
      cases bs with
      | nil => simp [outlines] at h
      | cons b rest' =>
          rw [outlines, outlines, List.cons.injEq] at h
          rw [locatedFrom, locatedFrom] at hsteps
          obtain ⟨hfirst, hrest⟩ := List.append_inj hsteps (length_located h.1)
          rw [eq_of_outline (place.child i) h.1 hfirst, eq_of_outlines place (i + 1) h.2 hrest]

end

end Storyboard.Action
