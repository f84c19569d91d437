import Mathlib.Data.List.Basic

/-!
# Steps that may fail

What is known of the steps of a computation that may fail, from how it ends.
-/

namespace Storyboard

variable {ε β γ : Type}

theorem exists_ok_of_isOk {x : Except ε β} (h : x.isOk = true) : ∃ b, x = .ok b := by
  cases x with
  | ok b => exact ⟨b, rfl⟩
  | error e => cases h

theorem bind_eq_ok {x : Except ε β} {f : β → Except ε γ} {c : γ} :
    x >>= f = .ok c ↔ ∃ b, x = .ok b ∧ f b = .ok c := by
  cases x with
  | ok b =>
      constructor
      · intro h
        exact ⟨b, rfl, h⟩
      · rintro ⟨b', hb, h⟩
        cases hb
        exact h
  | error e =>
      constructor
      · intro h
        cases h
      · rintro ⟨b, hb, -⟩
        cases hb

theorem bind_eq_error {x : Except ε β} {f : β → Except ε γ} {e : ε} :
    x >>= f = .error e ↔ x = .error e ∨ ∃ b, x = .ok b ∧ f b = .error e := by
  cases x with
  | ok b =>
      constructor
      · intro h
        exact Or.inr ⟨b, rfl, h⟩
      · rintro (h | ⟨b', hb, h⟩)
        · cases h
        · cases hb
          exact h
  | error e' =>
      constructor
      · intro h
        cases h
        exact Or.inl rfl
      · rintro (h | ⟨b, hb, -⟩)
        · cases h
          rfl
        · cases hb

/-- A list succeeds only if each of its members does. -/
theorem exists_ok_of_mapM_eq_ok {f : β → Except ε γ} {xs : List β} {ys : List γ}
    (h : xs.mapM f = .ok ys) {x : β} (hx : x ∈ xs) : ∃ y, f x = .ok y := by
  induction xs generalizing ys with
  | nil => exact absurd hx List.not_mem_nil
  | cons first rest ih =>
      rw [List.mapM_cons] at h
      obtain ⟨y, hy, h⟩ := bind_eq_ok.mp h
      obtain ⟨others, hothers, -⟩ := bind_eq_ok.mp h
      rcases List.mem_cons.mp hx with rfl | hx
      · exact ⟨y, hy⟩
      · exact ih hothers hx

/-- A list fails with the failure of one of its members. -/
theorem exists_error_of_mapM_eq_error {f : β → Except ε γ} {xs : List β} {e : ε}
    (h : xs.mapM f = .error e) : ∃ x ∈ xs, f x = .error e := by
  induction xs with
  | nil => cases h
  | cons first rest ih =>
      rw [List.mapM_cons] at h
      rcases bind_eq_error.mp h with hfirst | ⟨y, -, h⟩
      · exact ⟨first, List.mem_cons_self, hfirst⟩
      · rcases bind_eq_error.mp h with hrest | ⟨ys, -, h⟩
        · obtain ⟨x, hx, hfail⟩ := ih hrest
          exact ⟨x, List.mem_cons_of_mem _ hx, hfail⟩
        · cases h

theorem exists_mapM_eq_ok {f : β → Except ε γ} {xs : List β} (h : ∀ x ∈ xs, ∃ y, f x = .ok y) :
    ∃ ys, xs.mapM f = .ok ys := by
  induction xs with
  | nil => exact ⟨[], rfl⟩
  | cons first rest ih =>
      obtain ⟨⟨y, hy⟩, hrest⟩ := List.forall_mem_cons.mp h
      obtain ⟨ys, hys⟩ := ih hrest
      rw [List.mapM_cons]
      exact ⟨y :: ys, bind_eq_ok.mpr ⟨y, hy, bind_eq_ok.mpr ⟨ys, hys, rfl⟩⟩⟩

/-- A list has the results of its members. -/
theorem mapM_eq_ok_of_forall₂ {f : β → Except ε γ} {xs : List β} {ys : List γ}
    (h : List.Forall₂ (fun x y => f x = .ok y) xs ys) : xs.mapM f = .ok ys := by
  induction h with
  | nil => rfl
  | cons hfirst _ ih =>
      rw [List.mapM_cons]
      exact bind_eq_ok.mpr ⟨_, hfirst, bind_eq_ok.mpr ⟨_, ih, rfl⟩⟩

/-- A list fails as the first of its members that fails. -/
theorem mapM_append_cons_eq_error {f : β → Except ε γ} {front : List β} {x : β} {e : ε}
    (hfront : ∀ y ∈ front, ∃ z, f y = .ok z) (hx : f x = .error e) (back : List β) :
    (front ++ x :: back).mapM f = .error e := by
  induction front with
  | nil =>
      rw [List.nil_append, List.mapM_cons]
      exact bind_eq_error.mpr (Or.inl hx)
  | cons y front ih =>
      obtain ⟨⟨z, hy⟩, hfront⟩ := List.forall_mem_cons.mp hfront
      rw [List.cons_append, List.mapM_cons]
      exact bind_eq_error.mpr (Or.inr ⟨z, hy, bind_eq_error.mpr (Or.inl (ih hfront))⟩)

/-- The results of a list with what they are the results of. -/
theorem mem_of_mapM_pairs_eq_ok {f : β → Except ε γ} {xs : List β} {pairs : List (β × γ)}
    (h : (xs.mapM fun x => (f x).map fun y => (x, y)) = .ok pairs) (x : β) (y : γ) :
    (x, y) ∈ pairs ↔ x ∈ xs ∧ f x = .ok y := by
  induction xs generalizing pairs with
  | nil =>
      cases h
      simp
  | cons first rest ih =>
      rw [List.mapM_cons] at h
      obtain ⟨e, he, h⟩ := bind_eq_ok.mp h
      obtain ⟨others, hothers, h⟩ := bind_eq_ok.mp h
      cases h
      cases hfirst : f first with
      | error fault =>
          rw [hfirst] at he
          cases he
      | ok z =>
          rw [hfirst] at he
          cases he
          rw [List.mem_cons, List.mem_cons, ih hothers, Prod.mk.injEq]
          constructor
          · rintro (⟨rfl, rfl⟩ | ⟨hx, hy⟩)
            · exact ⟨Or.inl rfl, hfirst⟩
            · exact ⟨Or.inr hx, hy⟩
          · rintro ⟨rfl | hx, hy⟩
            · rw [hfirst] at hy
              cases hy
              exact Or.inl ⟨rfl, rfl⟩
            · exact Or.inr ⟨hx, hy⟩

theorem exists_mapM_pairs_eq_ok_iff {f : β → Except ε γ} {xs : List β} :
    (∃ pairs, (xs.mapM fun x => (f x).map fun y => (x, y)) = .ok pairs) ↔
      ∀ x ∈ xs, ∃ y, f x = .ok y := by
  constructor
  · rintro ⟨pairs, h⟩ x hx
    obtain ⟨e, he⟩ := exists_ok_of_mapM_eq_ok h hx
    cases hf : f x with
    | error fault =>
        rw [hf] at he
        cases he
    | ok y => exact ⟨y, rfl⟩
  · intro hall
    apply exists_mapM_eq_ok
    intro x hx
    obtain ⟨y, hy⟩ := hall x hx
    exact ⟨(x, y), by rw [hy]; rfl⟩

theorem mapM_congr {f g : β → Except ε γ} {xs : List β} (h : ∀ x ∈ xs, f x = g x) :
    xs.mapM f = xs.mapM g := by
  induction xs with
  | nil => rfl
  | cons x rest ih =>
      rw [List.mapM_cons, List.mapM_cons, h x List.mem_cons_self,
        ih fun y hy => h y (List.mem_cons_of_mem _ hy)]

/-! ## Searches -/

section Search

variable {xs : List β} {f : β → Except ε Bool}

theorem forall_of_anyM_eq_false (h : xs.anyM f = .ok false) : ∀ x ∈ xs, f x = .ok false := by
  induction xs with
  | nil => exact fun x hx => absurd hx List.not_mem_nil
  | cons first rest ih =>
      obtain ⟨found, hfirst, h⟩ := bind_eq_ok.mp h
      cases found with
      | true => cases h
      | false => exact List.forall_mem_cons.mpr ⟨hfirst, ih h⟩

theorem exists_of_anyM_eq_true (h : xs.anyM f = .ok true) : ∃ x ∈ xs, f x = .ok true := by
  induction xs with
  | nil => cases h
  | cons first rest ih =>
      obtain ⟨found, hfirst, h⟩ := bind_eq_ok.mp h
      cases found with
      | true => exact ⟨first, List.mem_cons_self, hfirst⟩
      | false =>
          obtain ⟨x, hx, hfound⟩ := ih h
          exact ⟨x, List.mem_cons_of_mem _ hx, hfound⟩

/-- A search with a result has one for each member that comes after none but noes. -/
theorem exists_ok_of_anyM_eq_ok {front back : List β} {x : β} {found : Bool}
    (h : (front ++ x :: back).anyM f = .ok found)
    (hfront : ∀ y ∈ front, ∀ b, f y = .ok b → b = false) : ∃ b, f x = .ok b := by
  induction front with
  | nil =>
      obtain ⟨b, hx, -⟩ := bind_eq_ok.mp h
      exact ⟨b, hx⟩
  | cons y front ih =>
      obtain ⟨hy, hfront⟩ := List.forall_mem_cons.mp hfront
      obtain ⟨b, hb, h⟩ := bind_eq_ok.mp h
      cases hy b hb
      exact ih h hfront

theorem exists_anyM_eq_ok (h : ∀ front x back, xs = front ++ x :: back →
    (∀ y ∈ front, f y = .ok false) → ∃ b, f x = .ok b) : ∃ found, xs.anyM f = .ok found := by
  induction xs with
  | nil => exact ⟨false, rfl⟩
  | cons first rest ih =>
      obtain ⟨b, hfirst⟩ := h [] first rest rfl (List.forall_mem_nil _)
      cases b with
      | true => exact ⟨true, bind_eq_ok.mpr ⟨true, hfirst, rfl⟩⟩
      | false =>
          obtain ⟨found, hfound⟩ := ih fun front x back hlist hfront =>
            h (first :: front) x back (by rw [hlist, List.cons_append])
              (List.forall_mem_cons.mpr ⟨hfirst, hfront⟩)
          exact ⟨found, bind_eq_ok.mpr ⟨false, hfirst, hfound⟩⟩

end Search

end Storyboard
