import Mathlib.Data.List.Nodup
import Storyboard.Json.Reading

/-!
# Fields that are read back

What is written into the field of an object is found there again.  A number is read
back if it is finite, and only finite numbers are read.
-/

namespace Storyboard.Json

/-! ## Values -/

theorem isFinite_of_finite? {x y : Float} (h : finite? x = some y) :
    Scalar.isFinite y = true := by
  unfold finite? at h
  split at h
  next hfinite =>
    cases h
    exact hfinite
  next => cases h

theorem isFinite_of_number? {j : Json} {x : Float} (h : j.number? = some x) :
    Scalar.isFinite x = true := by
  cases j with
  | int n => exact isFinite_of_finite? h
  | float y => exact isFinite_of_finite? h
  | null | bool | str | arr | obj => cases h

section Finite

variable {x : Float} (h : Scalar.isFinite x = true)

include h

theorem number?_ofFloat : (ofFloat x).number? = some x := by
  rw [ofFloat, if_pos h]
  exact if_pos h

theorem ofFloat_ne_null : ofFloat x ≠ .null := by
  rw [ofFloat, if_pos h]
  exact fun heq => by cases heq

theorem wantNumber_ofFloat : (ofFloat x).wantNumber = .ok x := by
  rw [wantNumber, number?_ofFloat h]

end Finite

theorem isFinite_of_wantNumber {j : Json} {x : Float} (h : j.wantNumber = .ok x) :
    Scalar.isFinite x = true := by
  unfold wantNumber at h
  split at h
  next y hy =>
    cases h
    exact isFinite_of_number? hy
  next => cases h

theorem mapM_map_eq_some {β γ : Type} {read : γ → Option β} {write : β → γ} {xs : List β}
    (h : ∀ x ∈ xs, read (write x) = some x) : (xs.map write).mapM read = some xs := by
  induction xs with
  | nil => rfl
  | cons x rest ih =>
      rw [List.map_cons, List.mapM_cons, h x List.mem_cons_self,
        ih fun y hy => h y (List.mem_cons_of_mem _ hy)]
      rfl

/-- A list is read back if each of its members is. -/
theorem list?_map {β : Type} {read : Json → Option β} {write : β → Json} {xs : List β}
    (h : ∀ x ∈ xs, read (write x) = some x) : (Json.arr (xs.map write)).list? read = some xs :=
  mapM_map_eq_some h

/-- A list is read if each of its members is, and nothing but them is read. -/
theorem exists_mapM_eq_some {β γ : Type} {read : γ → Option β} {items : List γ}
    (h : ∀ item ∈ items, ∃ x, read item = some x) :
    ∃ xs, items.mapM read = some xs ∧ ∀ x, x ∈ xs ↔ ∃ item ∈ items, read item = some x := by
  induction items with
  | nil => exact ⟨[], rfl, by simp⟩
  | cons item rest ih =>
      obtain ⟨x, hx⟩ := h item List.mem_cons_self
      obtain ⟨xs, hxs, hmem⟩ := ih fun other hother => h other (List.mem_cons_of_mem _ hother)
      refine ⟨x :: xs, ?_, fun y => ?_⟩
      · rw [List.mapM_cons, hx, hxs]
        rfl
      · rw [List.mem_cons, hmem, List.exists_mem_cons_iff, hx, Option.some_inj, eq_comm]

theorem exists_getElem?_of_mapM_eq_some {β γ : Type} {read : γ → Option β} {items : List γ}
    {xs : List β} (h : items.mapM read = some xs) {i : Nat} {x : β} (hx : xs[i]? = some x) :
    ∃ item, items[i]? = some item ∧ read item = some x := by
  induction items generalizing xs i with
  | nil =>
      cases h
      cases hx
  | cons item rest ih =>
      rw [List.mapM_cons] at h
      obtain ⟨y, hy, h⟩ := Option.bind_eq_some_iff.mp h
      obtain ⟨ys, hys, h⟩ := Option.bind_eq_some_iff.mp h
      cases h
      cases i with
      | zero =>
          obtain rfl := Option.some_inj.mp hx
          exact ⟨item, rfl, hy⟩
      | succ i => exact ih hys hx

theorem texts?_ofTexts (texts : List String) : (ofTexts texts).texts? = some texts :=
  list?_map fun _ _ => rfl

theorem wantTexts_ofTexts (texts : List String) : (ofTexts texts).wantTexts = .ok texts := by
  change (texts.map Json.str).mapM wantText = .ok texts
  induction texts with
  | nil => rfl
  | cons text rest ih =>
      rw [List.map_cons, List.mapM_cons, ih]
      rfl

/-! ## Fields by name -/

/-- The fields that have a value. -/
def written (fields : List (String × Option Json)) : Record :=
  fields.filterMap fun f => f.2.map fun v => (f.1, v)

theorem lookup_eq_none_of_notMem {β : Type} {fields : List (String × β)} {name : String}
    (h : name ∉ fields.map Prod.fst) : fields.lookup name = none := by
  rw [List.lookup_eq_none_iff]
  intro f hf
  rw [bne_iff_ne]
  rintro rfl
  exact h (List.mem_map.mpr ⟨f, hf, rfl⟩)

theorem lookup_written {fields : List (String × Option Json)} (h : (fields.map Prod.fst).Nodup)
    (name : String) : (written fields).lookup name = (fields.lookup name).join := by
  induction fields with
  | nil => rfl
  | cons f rest ih =>
      obtain ⟨key, value⟩ := f
      obtain ⟨hkey, hrest⟩ := List.nodup_cons.mp h
      have hbelow : (written rest).lookup name = (rest.lookup name).join := ih hrest
      rw [List.lookup_cons]
      cases hname : name == key with
      | true =>
          obtain rfl := beq_iff_eq.mp hname
          cases value with
          | some v => exact (List.lookup_cons).trans (by rw [hname]; rfl)
          | none =>
              -- a field without a value is not written, nor is one of its name
              rw [lookup_eq_none_of_notMem hkey] at hbelow
              exact hbelow
      | false =>
          cases value with
          | some v => exact (List.lookup_cons).trans (by rw [hname]; exact hbelow)
          | none => exact hbelow

namespace Record

variable {β : Type} {fields : List (String × Option Json)} {name : String}

theorem demand_written (hnodup : (fields.map Prod.fst).Nodup)
    {want : Json → Except String β} {j : Json} {v : β}
    (hfield : fields.lookup name = some (some j)) (hwant : want j = .ok v) :
    demand (written fields) name want = .read v := by
  rw [demand, lookup_written hnodup, hfield, Option.join_some]
  dsimp only
  rw [readField, hwant]

theorem allow_written (hnodup : (fields.map Prod.fst).Nodup)
    {want : Json → Except String β} {write : β → Json} {v : Option β}
    (hfield : fields.lookup name = some (v.map write))
    (hwant : ∀ x, v = some x → want (write x) = .ok x ∧ write x ≠ .null) :
    allow (written fields) name want = .read v := by
  rw [allow, lookup_written hnodup, hfield, Option.join_some]
  cases v with
  | none => rfl
  | some x =>
      obtain ⟨hread, hnull⟩ := hwant x rfl
      rw [Option.map_some]
      split
      next hnone => cases hnone
      next hsome => exact absurd (Option.some_inj.mp hsome) hnull
      next j hj =>
        obtain rfl := Option.some_inj.mp hj
        rw [readField, hread]
        rfl

theorem allowDefault_written (hnodup : (fields.map Prod.fst).Nodup)
    {want : Json → Except String β} {default : β} {j : Json} {v : β}
    (hfield : fields.lookup name = some (some j)) (hwant : want j = .ok v) :
    allowDefault (written fields) name default want = .read v := by
  rw [allowDefault, lookup_written hnodup, hfield, Option.join_some]
  dsimp only
  rw [readField, hwant]

/-! ## What a reading tells -/

theorem readField_eq_read {want : Json → Except String β} {j : Json} {v : β}
    (h : readField name want j = .read v) : want j = .ok v := by
  unfold readField at h
  split at h
  next w hw =>
    cases h
    exact hw
  next => cases h

variable {r : Record}

theorem exists_of_demand_eq_read {want : Json → Except String β} {v : β}
    (h : r.demand name want = .read v) : ∃ j, r.lookup name = some j ∧ want j = .ok v := by
  unfold demand at h
  split at h
  next => cases h
  next j hj => exact ⟨j, hj, readField_eq_read h⟩

theorem exists_of_allow_eq_read {want : Json → Except String β} {v : β}
    (h : r.allow name want = .read (some v)) : ∃ j, want j = .ok v := by
  unfold allow at h
  split at h
  next => cases h
  next => cases h
  next j _ _ =>
    cases hread : readField name want j with
    | read w =>
        rw [hread] at h
        cases h
        exact ⟨j, readField_eq_read hread⟩
    | refused complaint =>
        rw [hread] at h
        cases h

end Record

theorem Reading.seq_eq_read {β γ : Type} {f : Reading (β → γ)} {x : Reading β} {v : γ}
    (h : f <*> x = .read v) : ∃ g y, f = .read g ∧ x = .read y ∧ g y = v := by
  change f.apply x = .read v at h
  cases f with
  | read g =>
      cases x with
      | read y =>
          cases h
          exact ⟨g, y, rfl, rfl, rfl⟩
      | refused complaint => cases h
  | refused complaint => cases x <;> cases h

theorem Reading.map_eq_read {β γ : Type} {g : β → γ} {x : Reading β} {v : γ}
    (h : g <$> x = .read v) : ∃ y, x = .read y ∧ g y = v := by
  obtain ⟨g', y, hg, hy, hv⟩ := Reading.seq_eq_read h
  cases hg
  exact ⟨y, hy, hv⟩

end Storyboard.Json
