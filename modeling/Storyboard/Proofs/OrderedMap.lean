import Storyboard.OrderedMap

/-!
# Looking up in ordered maps

No key stands twice in an ordered map, so that looking a key up, finding its entry
and asking whether it is present all say the same.
-/

namespace Storyboard.OrderedMap

variable {κ ν : Type} [DecidableEq κ]

/-- The entry of a key is the only one with that key. -/
theorem filter_entries (m : OrderedMap κ ν) (k : κ) :
    m.entries.filter (fun e => e.1 = k) = (m.get? k).toList.map fun v => (k, v) := by
  obtain ⟨entries, hnodup⟩ := m
  simp only [get?]
  induction entries with
  | nil => rfl
  | cons e rest ih =>
      rw [List.map_cons, List.nodup_cons] at hnodup
      obtain ⟨hnew, hrest⟩ := hnodup
      by_cases h : e.1 = k
      · subst h
        have hnone : rest.filter (fun e' => e'.1 = e.1) = [] := by
          rw [List.filter_eq_nil_iff]
          intro e' he' heq
          exact hnew (List.mem_map.mpr ⟨e', he', by simpa using heq⟩)
        simp [hnone]
      · simpa [h] using ih hrest

theorem mem_entries_iff {m : OrderedMap κ ν} {k : κ} {v : ν} :
    (k, v) ∈ m.entries ↔ m.get? k = some v := by
  have hfilter := m.filter_entries k
  constructor
  · intro h
    have hmem : (k, v) ∈ m.entries.filter (fun e => e.1 = k) :=
      List.mem_filter.mpr ⟨h, by simp⟩
    rw [hfilter] at hmem
    simpa using hmem
  · intro h
    have hmem : (k, v) ∈ m.entries.filter (fun e => e.1 = k) := by
      rw [hfilter, h]
      simp
    exact (List.mem_filter.mp hmem).1

theorem mem_keys_iff {m : OrderedMap κ ν} {k : κ} :
    k ∈ m.keys ↔ (m.get? k).isSome = true := by
  rw [Option.isSome_iff_exists]
  constructor
  · intro h
    obtain ⟨e, he, rfl⟩ := List.mem_map.mp h
    exact ⟨e.2, mem_entries_iff.mp he⟩
  · rintro ⟨v, hv⟩
    exact List.mem_map.mpr ⟨(k, v), mem_entries_iff.mpr hv, rfl⟩

theorem contains_eq_isSome (m : OrderedMap κ ν) (k : κ) :
    m.contains k = (m.get? k).isSome := by
  rw [Bool.eq_iff_iff, ← mem_keys_iff]
  simp [contains]

theorem get?_eq_none_of_contains {m : OrderedMap κ ν} {k : κ} (h : m.contains k = false) :
    m.get? k = none := by
  rwa [contains_eq_isSome, Option.isSome_eq_false_iff, Option.isNone_iff_eq_none] at h

/-- A map in which nothing can be looked up is empty. -/
theorem eq_empty_iff {m : OrderedMap κ ν} : m = empty ↔ ∀ k, m.get? k = none := by
  constructor
  · rintro rfl k
    rfl
  · intro h
    rcases hentries : m.entries with _ | ⟨⟨k, v⟩, rest⟩
    · obtain ⟨entries, hnodup⟩ := m
      cases hentries
      rfl
    · have hmem : (k, v) ∈ m.entries := by
        rw [hentries]
        exact List.mem_cons_self
      rw [mem_entries_iff, h k] at hmem
      cases hmem

theorem upsertEntry_of_notMem {k : κ} (f : Option ν → ν) {l : List (κ × ν)}
    (h : k ∉ l.map Prod.fst) : upsertEntry k f l = l ++ [(k, f none)] := by
  induction l with
  | nil => rfl
  | cons e rest ih =>
      rw [List.map_cons, List.mem_cons, not_or] at h
      rw [upsertEntry, if_neg (Ne.symm h.1), ih h.2, List.cons_append]

theorem entries_insert_of_notMem {m : OrderedMap κ ν} {k : κ} (h : k ∉ m.keys) (v : ν) :
    (m.insert k v).entries = m.entries ++ [(k, v)] :=
  upsertEntry_of_notMem (fun _ => v) h

/-! ## Inserting a list -/

theorem mem_keys_insertAll {m : OrderedMap κ ν} {l : List (κ × ν)} {k : κ} :
    k ∈ (m.insertAll l).keys ↔ k ∈ m.keys ∨ k ∈ l.map Prod.fst := by
  unfold insertAll
  induction l generalizing m with
  | nil => simp
  | cons e rest ih =>
      rw [List.foldl_cons, ih, mem_keys_iff, get?_insert, List.map_cons, List.mem_cons]
      by_cases hk : k = e.1
      · simp [hk]
      · rw [if_neg hk, ← mem_keys_iff]
        simp [hk]

/-- What is present, or is inserted at some time, is present in the end. -/
theorem isSome_get?_insertAll (m : OrderedMap κ ν) (l : List (κ × ν)) (k : κ)
    (h : (m.get? k).isSome = true ∨ k ∈ l.map Prod.fst) :
    ((m.insertAll l).get? k).isSome = true :=
  mem_keys_iff.mp (mem_keys_insertAll.mpr (h.imp_left mem_keys_iff.mpr))

/-- Of the values that are inserted for a key the last one stays. -/
theorem get?_insertAll (m : OrderedMap κ ν) (l : List (κ × ν)) (k : κ) :
    (m.insertAll l).get? k =
      ((l.reverse.find? fun e => e.1 = k).map Prod.snd).or (m.get? k) := by
  unfold insertAll
  induction l generalizing m with
  | nil => rfl
  | cons e rest ih =>
      rw [List.foldl_cons, ih, get?_insert, List.reverse_cons, List.find?_append]
      cases rest.reverse.find? fun e => e.1 = k with
      | some later => rfl
      | none =>
          by_cases hk : e.1 = k
          · simp [hk]
          · simp [hk, Ne.symm hk]

/-- What is found in the map of a list is a pair of the list. -/
theorem mem_of_get?_ofList {l : List (κ × ν)} {k : κ} {v : ν}
    (h : (ofList l).get? k = some v) : (k, v) ∈ l := by
  have hlast : (ofList l).get? k = (l.reverse.find? fun e => e.1 = k).map Prod.snd :=
    (get?_insertAll empty l k).trans Option.or_none
  rw [hlast, Option.map_eq_some_iff] at h
  obtain ⟨e, he, rfl⟩ := h
  have hk : e.1 = k := by simpa using List.find?_some he
  rw [← hk]
  exact List.mem_reverse.mp (List.mem_of_find?_eq_some he)

/-- A list that has one value for each key is the map of its pairs. -/
theorem get?_ofList_eq_some_iff {l : List (κ × ν)}
    (h : ∀ e ∈ l, ∀ e' ∈ l, e.1 = e'.1 → e.2 = e'.2) {k : κ} {v : ν} :
    (ofList l).get? k = some v ↔ (k, v) ∈ l := by
  refine ⟨mem_of_get?_ofList, fun hmem => ?_⟩
  have hpresent : ((ofList l).get? k).isSome = true :=
    isSome_get?_insertAll empty l k (Or.inr (List.mem_map.mpr ⟨(k, v), hmem, rfl⟩))
  obtain ⟨v', hv'⟩ := Option.isSome_iff_exists.mp hpresent
  rw [hv']
  exact congrArg some (h (k, v') (mem_of_get?_ofList hv') (k, v) hmem rfl)

theorem get?_ofList_of_mem_iff {l : List (κ × ν)} {m : OrderedMap κ ν}
    (h : ∀ k v, (k, v) ∈ l ↔ m.get? k = some v) (k : κ) : (ofList l).get? k = m.get? k := by
  ext v
  rw [get?_ofList_eq_some_iff, h]
  rintro ⟨a, v⟩ ha ⟨b, v'⟩ hb rfl
  rw [h] at ha hb
  exact Option.some_inj.mp (ha.symm.trans hb)

theorem entries_insertAll {m : OrderedMap κ ν} {l : List (κ × ν)}
    (h : (m.keys ++ l.map Prod.fst).Nodup) : (m.insertAll l).entries = m.entries ++ l := by
  unfold insertAll
  induction l generalizing m with
  | nil => exact (List.append_nil _).symm
  | cons e rest ih =>
      obtain ⟨k, v⟩ := e
      have hnew : k ∉ m.keys := fun hk =>
        (List.nodup_append.mp h).2.2 k hk k List.mem_cons_self rfl
      have hkeys : (m.insert k v).keys = m.keys ++ [k] := by
        rw [keys_insert, if_neg hnew]
      rw [List.foldl_cons, ih, entries_insert_of_notMem hnew, List.append_assoc]
      · rfl
      · rw [hkeys, List.append_assoc]
        exact h

/-- A map is made again from its entries. -/
theorem ofList_entries (m : OrderedMap κ ν) : ofList m.entries = m := by
  have hentries : (ofList m.entries).entries = m.entries := entries_insertAll m.nodup
  generalize ofList m.entries = m' at hentries ⊢
  cases m
  cases m'
  cases hentries
  rfl

end Storyboard.OrderedMap

namespace Storyboard.OrderedSet

variable {κ : Type} [DecidableEq κ]

theorem mem_keys_ofElements {l : List κ} {k : κ} : k ∈ (ofElements l).keys ↔ k ∈ l := by
  have hall : ofElements l = OrderedMap.empty.insertAll (l.map fun k => (k, ())) := by
    rw [OrderedMap.insertAll, List.foldl_map]
    rfl
  rw [hall, OrderedMap.mem_keys_insertAll]
  simp [OrderedMap.empty, OrderedMap.keys]

end Storyboard.OrderedSet
