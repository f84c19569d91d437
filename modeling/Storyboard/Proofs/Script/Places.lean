import Storyboard.Proofs.Text.Digits
import Storyboard.Script.Basic

/-!
# Places and their paths

The path of a place in a scene spells out every index that leads to it in brackets.
An index ends at its bracket, and a path goes into a group or to a field with
different words, so that a path can be read back: places of the same path are the
same place, and no path of a name inside the actions is the path of the name of a
scene.
-/

namespace Storyboard

namespace Place

/-- The actions of a group at each of some indices, one inside the other. -/
def trail (indices : List Nat) : List Char :=
  indices.flatMap fun i => ".actions".toList ++ (bracketed i).toList

/-- A place of an action in a scene. -/
structure IsInScene (p : Place) (scene : Nat) : Prop where
  list_eq : p.list = scenePath scene ++ ".actions"
  indices_ne_nil : p.indices ≠ []

/-! ## Reading an index back -/

theorem bracketed_toList (i : Nat) :
    (bracketed i).toList = '[' :: (Nat.toDigits 10 i ++ [']']) := by
  simp [bracketed]

/-- Two texts are told apart up to the first mark of a kind and behind it. -/
theorem append_mark_inj {mark : Char} {xs ys rest rest' : List Char} (hxs : mark ∉ xs)
    (hys : mark ∉ ys) (h : xs ++ mark :: rest = ys ++ mark :: rest') :
    xs = ys ∧ rest = rest' := by
  induction xs generalizing ys with
  | nil =>
      cases ys with
      | nil => exact ⟨rfl, (List.cons.inj h).2⟩
      | cons y ys =>
          rw [List.nil_append, List.cons_append] at h
          exact absurd ((List.cons.inj h).1 ▸ List.mem_cons_self) hys
  | cons x xs ih =>
      cases ys with
      | nil =>
          rw [List.nil_append, List.cons_append] at h
          exact absurd ((List.cons.inj h).1 ▸ List.mem_cons_self) hxs
      | cons y ys =>
          rw [List.cons_append, List.cons_append] at h
          obtain ⟨rfl, htail⟩ := List.cons.inj h
          obtain ⟨rfl, hrest⟩ := ih (List.not_mem_of_not_mem_cons hxs)
            (List.not_mem_of_not_mem_cons hys) htail
          exact ⟨rfl, hrest⟩

/-- An index in brackets can be read off the front of a text. -/
theorem bracketed_append_inj {i j : Nat} {xs ys : List Char}
    (h : (bracketed i).toList ++ xs = (bracketed j).toList ++ ys) : i = j ∧ xs = ys := by
  rw [bracketed_toList, bracketed_toList, List.cons_append, List.cons_append,
    List.append_assoc, List.append_assoc, List.singleton_append,
    List.singleton_append] at h
  obtain ⟨hdigits, htail⟩ := append_mark_inj (notMem_toDigits rfl i)
    (notMem_toDigits rfl j) (List.cons.inj h).2
  exact ⟨toDigits_injective hdigits, htail⟩

/-! ## Reading a path back -/

theorem trail_cons (i : Nat) (rest : List Nat) :
    trail (i :: rest) = ".actions".toList ++ ((bracketed i).toList ++ trail rest) := by
  simp [trail]

/-- A trail that ends in the field of a name can be read back. -/
theorem trail_append_inj {is js : List Nat}
    (h : trail is ++ ".id".toList = trail js ++ ".id".toList) : is = js := by
  induction is generalizing js with
  | nil =>
      cases js with
      | nil => rfl
      | cons j js => simp [trail] at h
  | cons i is ih =>
      cases js with
      | nil => simp [trail] at h
      | cons j js =>
          rw [trail_cons, trail_cons, List.append_assoc, List.append_assoc,
            List.append_assoc, List.append_assoc] at h
          obtain ⟨rfl, hrest⟩ := bracketed_append_inj (List.append_cancel_left h)
          rw [ih hrest]

theorem foldl_path (indices : List Nat) (front : String) :
    (indices.foldl (fun path j => path ++ ".actions" ++ bracketed j) front).toList =
      front.toList ++ trail indices := by
  induction indices generalizing front with
  | nil => simp [trail]
  | cons j rest ih =>
      rw [List.foldl_cons, ih, trail_cons]
      simp

theorem IsInScene.field_id_toList {p : Place} {scene : Nat} (h : p.IsInScene scene) :
    (p.field "id").toList =
      "scenes".toList ++ ((bracketed scene).toList ++ (trail p.indices ++ ".id".toList)) := by
  obtain ⟨list, indices⟩ := p
  obtain ⟨hlist, hne⟩ := h
  cases indices with
  | nil => exact absurd rfl hne
  | cons i rest =>
      change list = _ at hlist
      subst hlist
      simp only [field, path, String.toList_append, foldl_path, trail_cons, scenePath,
        List.append_assoc]
      rfl

theorem scenePath_id_toList (scene : Nat) :
    (scenePath scene ++ ".id").toList =
      "scenes".toList ++ ((bracketed scene).toList ++ ".id".toList) := by
  simp only [scenePath, String.toList_append, List.append_assoc]

theorem IsInScene.scene_inj {p : Place} {i j : Nat} (hi : p.IsInScene i)
    (hj : p.IsInScene j) : i = j := by
  have hlist := hi.field_id_toList.symm.trans hj.field_id_toList
  exact (bracketed_append_inj (List.append_cancel_left hlist)).1

/-- Actions whose names have the same path are at the same place. -/
theorem IsInScene.eq_of_field_id {p q : Place} {i j : Nat} (hp : p.IsInScene i)
    (hq : q.IsInScene j) (h : p.field "id" = q.field "id") : p = q := by
  have hlist := congrArg String.toList h
  rw [hp.field_id_toList, hq.field_id_toList] at hlist
  obtain ⟨rfl, htrail⟩ := bracketed_append_inj (List.append_cancel_left hlist)
  have hindices := trail_append_inj htrail
  obtain ⟨list, indices⟩ := p
  obtain ⟨list', indices'⟩ := q
  have hlists := hp.list_eq.trans hq.list_eq.symm
  change list = list' at hlists
  change indices = indices' at hindices
  rw [hlists, hindices]

/-- The path of the name of an action is not that of the name of a scene. -/
theorem IsInScene.field_id_ne_scenePath {p : Place} {i : Nat} (hp : p.IsInScene i)
    (j : Nat) : p.field "id" ≠ scenePath j ++ ".id" := by
  intro h
  have hlist := congrArg String.toList h
  rw [hp.field_id_toList, scenePath_id_toList] at hlist
  obtain ⟨-, htrail⟩ := bracketed_append_inj (List.append_cancel_left hlist)
  exact hp.indices_ne_nil (@trail_append_inj p.indices [] htrail)

end Place

end Storyboard
