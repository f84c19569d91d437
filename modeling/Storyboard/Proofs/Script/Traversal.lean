import Mathlib.Data.List.Nodup
import Storyboard.Proofs.Script.Places

/-!
# Going through the steps of a script

The steps of a tree of actions in document order are a list, and whatever goes
through the tree goes through that list.  No two steps are at the same place.
-/

namespace Storyboard

namespace Action

variable {α σ : Type}

/-! ## Places of steps -/

mutual

theorem prefix_of_mem_located {place : Place} {a : Action α} {e : Place × Step α}
    (h : e ∈ located place a) :
    e.1.list = place.list ∧ place.indices <+: e.1.indices := by
  cases a with
  | step s =>
      rw [located, List.mem_singleton] at h
      subst h
      exact ⟨rfl, List.prefix_rfl⟩
  | together actions =>
      rw [located] at h
      obtain ⟨hlist, j, -, hprefix⟩ := prefix_of_mem_locatedFrom h
      exact ⟨hlist, (List.prefix_append _ _).trans hprefix⟩

theorem prefix_of_mem_locatedFrom {place : Place} {i : Nat} {actions : List (Action α)}
    {e : Place × Step α} (h : e ∈ locatedFrom place i actions) :
    e.1.list = place.list ∧ ∃ j, i ≤ j ∧ place.indices ++ [j] <+: e.1.indices := by
  cases actions with
  | nil =>
      rw [locatedFrom] at h
      exact absurd h List.not_mem_nil
  | cons a rest =>
      rw [locatedFrom] at h
      rcases List.mem_append.mp h with h | h
      · obtain ⟨hlist, hprefix⟩ := prefix_of_mem_located h
        exact ⟨hlist, i, Nat.le_refl i, hprefix⟩
      · obtain ⟨hlist, j, hj, hprefix⟩ := prefix_of_mem_locatedFrom h
        exact ⟨hlist, j, Nat.le_of_succ_le hj, hprefix⟩

end

/-- Places that go into a group by different indices are different. -/
theorem ne_of_prefix {indices xs ys : List Nat} {i j : Nat} (hne : i ≠ j)
    (hxs : indices ++ [i] <+: xs) (hys : indices ++ [j] <+: ys) : xs ≠ ys := by
  rintro rfl
  have hlength : (indices ++ [i]).length ≤ (indices ++ [j]).length := by simp
  have hprefix := List.prefix_of_prefix_length_le hxs hys hlength
  simp [hne] at hprefix

mutual

theorem nodup_located (place : Place) (a : Action α) :
    ((located place a).map Prod.fst).Nodup := by
  cases a with
  | step s =>
      rw [located]
      exact List.nodup_singleton _
  | together actions =>
      rw [located]
      exact nodup_locatedFrom place 0 actions

theorem nodup_locatedFrom (place : Place) (i : Nat) (actions : List (Action α)) :
    ((locatedFrom place i actions).map Prod.fst).Nodup := by
  cases actions with
  | nil =>
      rw [locatedFrom]
      exact List.nodup_nil
  | cons a rest =>
      rw [locatedFrom, List.map_append]
      refine List.nodup_append.mpr
        ⟨nodup_located _ a, nodup_locatedFrom place (i + 1) rest, ?_⟩
      intro p hp q hq
      obtain ⟨e, he, rfl⟩ := List.mem_map.mp hp
      obtain ⟨e', he', rfl⟩ := List.mem_map.mp hq
      obtain ⟨-, hprefix⟩ := prefix_of_mem_located he
      obtain ⟨-, j, hj, hprefix'⟩ := prefix_of_mem_locatedFrom he'
      exact fun heq =>
        ne_of_prefix (Nat.ne_of_lt hj) hprefix hprefix' (congrArg Place.indices heq)

end

/-! ## A state that is handed on -/

/-- Changes some steps with their places one after the other, handing on a state. -/
def handOn (f : σ → Place → Step α → σ × Step α) (state : σ) :
    List (Place × Step α) → σ × List (Place × Step α)
  | [] => (state, [])
  | (place, s) :: rest =>
    let changed := f state place s
    let others := handOn f changed.1 rest
    (others.1, (place, changed.2) :: others.2)

theorem handOn_append (f : σ → Place → Step α → σ × Step α) (state : σ)
    (steps steps' : List (Place × Step α)) :
    handOn f state (steps ++ steps') =
      ((handOn f (handOn f state steps).1 steps').1,
        (handOn f state steps).2 ++ (handOn f (handOn f state steps).1 steps').2) := by
  induction steps generalizing state with
  | nil => rfl
  | cons e rest ih => simp only [List.cons_append, handOn, ih]

theorem traverse_together (f : σ → Place → Step α → σ × Step α) (place : Place)
    (state : σ) (actions : List (Action α)) :
    traverse f place state (.together actions) =
      ((traverseFrom f place 0 state actions).1,
        .together (traverseFrom f place 0 state actions).2) := by
  rw [traverse]

theorem traverseFrom_cons (f : σ → Place → Step α → σ × Step α) (place : Place) (i : Nat)
    (state : σ) (a : Action α) (rest : List (Action α)) :
    traverseFrom f place i state (a :: rest) =
      ((traverseFrom f place (i + 1) (traverse f (place.child i) state a).1 rest).1,
        (traverse f (place.child i) state a).2 ::
          (traverseFrom f place (i + 1) (traverse f (place.child i) state a).1 rest).2) := by
  rw [traverseFrom]

mutual

theorem located_traverse (f : σ → Place → Step α → σ × Step α) (place : Place)
    (state : σ) (a : Action α) :
    (traverse f place state a).1 = (handOn f state (located place a)).1 ∧
      located place (traverse f place state a).2 =
        (handOn f state (located place a)).2 := by
  cases a with
  | step s =>
      rw [traverse, located]
      exact ⟨rfl, by rw [located]; rfl⟩
  | together actions =>
      rw [traverse_together, located, located]
      exact locatedFrom_traverseFrom f place 0 state actions

/-- Going through some actions is going through their steps in document order. -/
theorem locatedFrom_traverseFrom (f : σ → Place → Step α → σ × Step α) (place : Place)
    (i : Nat) (state : σ) (actions : List (Action α)) :
    (traverseFrom f place i state actions).1 =
        (handOn f state (locatedFrom place i actions)).1 ∧
      locatedFrom place i (traverseFrom f place i state actions).2 =
        (handOn f state (locatedFrom place i actions)).2 := by
  cases actions with
  | nil =>
      rw [traverseFrom, locatedFrom]
      exact ⟨rfl, rfl⟩
  | cons a rest =>
      obtain ⟨hstate, hlocated⟩ := located_traverse f (place.child i) state a
      obtain ⟨hstates, hlocateds⟩ := locatedFrom_traverseFrom f place (i + 1)
        (traverse f (place.child i) state a).1 rest
      rw [traverseFrom_cons, locatedFrom, locatedFrom, handOn_append, hlocated, hlocateds,
        hstates, hstate]
      exact ⟨rfl, rfl⟩

end

end Action

/-! ## All scenes -/

/-- No two entries of an indexed list have the same index. -/
theorem pairwise_zipIdx {β : Type} (xs : List β) (i : Nat) :
    (xs.zipIdx i).Pairwise fun e e' => e.2 ≠ e'.2 := by
  have hnodup : ((xs.zipIdx i).map Prod.snd).Nodup := by
    rw [List.zipIdx_map_snd]
    exact List.nodup_range'
  exact List.pairwise_map.mp hnodup

namespace Scene

variable {α : Type}

theorem isInScene_of_mem_located {i : Nat} {s : Scene α} {e : Place × Step α}
    (h : e ∈ s.located i) : e.1.IsInScene i := by
  obtain ⟨hlist, j, -, hprefix⟩ := Action.prefix_of_mem_locatedFrom h
  refine ⟨hlist, fun hnil => ?_⟩
  rw [hnil] at hprefix
  simp [Place.ofScene] at hprefix

end Scene

namespace Script

variable {α : Type}

theorem exists_isInScene_of_mem_located {s : Script α} {e : Place × Step α}
    (h : e ∈ s.located) : ∃ i, e.1.IsInScene i := by
  obtain ⟨⟨scene, i⟩, -, he⟩ := List.mem_flatMap.mp h
  exact ⟨i, Scene.isInScene_of_mem_located he⟩

/-- No two steps of a script are at the same place. -/
theorem nodup_located (s : Script α) : (s.located.map Prod.fst).Nodup := by
  rw [located, List.map_flatMap]
  refine List.nodup_flatMap.mpr ⟨fun e _ => Action.nodup_locatedFrom _ 0 _, ?_⟩
  refine (pairwise_zipIdx s.scenes 0).imp fun {e e'} hne => ?_
  -- a place of both scenes would be in two lists of actions
  apply List.disjoint_left.mpr
  intro p hp hp'
  obtain ⟨x, hx, rfl⟩ := List.mem_map.mp hp
  obtain ⟨y, hy, heq⟩ := List.mem_map.mp hp'
  have hin := Scene.isInScene_of_mem_located hx
  have hin' := Scene.isInScene_of_mem_located hy
  rw [heq] at hin'
  exact hne (hin.scene_inj hin')

end Script

end Storyboard
