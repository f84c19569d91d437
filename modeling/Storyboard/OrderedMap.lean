/-!
# Ordered maps

Finite maps that remember the order in which their keys first came in.  Writing
to a present key keeps its place, a new key goes to the end, and erasing a key
leaves the order of the others.  Sets in the order of insertion are maps to the
one-element type.
-/

namespace Storyboard

/-- Key-value pairs in the order of insertion, no key twice. -/
structure OrderedMap (κ ν : Type) where
  entries : List (κ × ν)
  nodup : (entries.map Prod.fst).Nodup

namespace OrderedMap

variable {κ ν : Type} [DecidableEq κ]

/-- Updates the value at `k` in place, or adds `k` at the end. -/
def upsertEntry (k : κ) (f : Option ν → ν) : List (κ × ν) → List (κ × ν)
  | [] => [(k, f none)]
  | (key, v) :: rest =>
    if key = k then (key, f (some v)) :: rest
    else (key, v) :: upsertEntry k f rest

theorem keys_upsertEntry (k : κ) (f : Option ν → ν) (l : List (κ × ν)) :
    (upsertEntry k f l).map Prod.fst =
      if k ∈ l.map Prod.fst then l.map Prod.fst else l.map Prod.fst ++ [k] := by
  induction l with
  | nil => simp [upsertEntry]
  | cons e rest ih =>
    obtain ⟨key, v⟩ := e
    by_cases h : key = k
    · simp [upsertEntry, h]
    · have h' : ¬k = key := fun e => h e.symm
      by_cases hk : k ∈ rest.map Prod.fst
      · simp only [upsertEntry, if_neg h, List.map_cons, ih, if_pos hk]
        rw [if_pos (List.mem_cons_of_mem _ hk)]
      · simp only [upsertEntry, if_neg h, List.map_cons, ih, if_neg hk]
        rw [if_neg (by simp only [List.mem_cons, not_or]; exact ⟨h', hk⟩)]
        rfl

theorem nodup_upsertEntry (k : κ) (f : Option ν → ν) {l : List (κ × ν)}
    (h : (l.map Prod.fst).Nodup) : ((upsertEntry k f l).map Prod.fst).Nodup := by
  rw [keys_upsertEntry]
  split
  · exact h
  · next hk =>
    rw [List.nodup_append]
    refine ⟨h, by simp, ?_⟩
    intro a ha b hb
    rw [List.mem_singleton] at hb
    subst hb
    exact fun e => hk (e ▸ ha)

/-- The map without keys. -/
def empty : OrderedMap κ ν := ⟨[], List.nodup_nil⟩

instance : Inhabited (OrderedMap κ ν) := ⟨empty⟩

/-- The keys in the order of insertion. -/
def keys (m : OrderedMap κ ν) : List κ := m.entries.map Prod.fst

/-- The values in the order of their keys. -/
def values (m : OrderedMap κ ν) : List ν := m.entries.map Prod.snd

/-- The number of keys. -/
def size (m : OrderedMap κ ν) : Nat := m.entries.length

/-- The value of a key, if it is present. -/
def get? (m : OrderedMap κ ν) (k : κ) : Option ν :=
  (m.entries.find? fun e => e.1 = k).map Prod.snd

/-- Whether a key is present. -/
def contains (m : OrderedMap κ ν) (k : κ) : Bool := m.keys.contains k

/-- Gives `k` the value that `f` makes of the one it had. -/
def upsert (m : OrderedMap κ ν) (k : κ) (f : Option ν → ν) : OrderedMap κ ν :=
  ⟨upsertEntry k f m.entries, nodup_upsertEntry k f m.nodup⟩

/-- Gives `k` the value `v`. -/
def insert (m : OrderedMap κ ν) (k : κ) (v : ν) : OrderedMap κ ν :=
  m.upsert k fun _ => v

/-- Takes `k` out; the other keys keep their order. -/
def erase (m : OrderedMap κ ν) (k : κ) : OrderedMap κ ν :=
  ⟨m.entries.filter fun e => e.1 ≠ k,
    m.nodup.sublist (List.filter_sublist.map Prod.fst)⟩

/-- Inserts the pairs of a list one after the other. -/
def insertAll (m : OrderedMap κ ν) (l : List (κ × ν)) : OrderedMap κ ν :=
  l.foldl (fun m e => m.insert e.1 e.2) m

/-- The map of a list of pairs; of two values for one key the later stays. -/
def ofList (l : List (κ × ν)) : OrderedMap κ ν := empty.insertAll l

/-- The pair that is found for a key before and after an update. -/
theorem find?_upsertEntry (k key : κ) (f : Option ν → ν) (l : List (κ × ν)) :
    ((upsertEntry k f l).find? fun e => e.1 = key).map Prod.snd =
      if key = k then some (f ((l.find? fun e => e.1 = k).map Prod.snd))
      else (l.find? fun e => e.1 = key).map Prod.snd := by
  induction l with
  | nil =>
    by_cases h : key = k
    · simp [upsertEntry, h]
    · have h' : ¬k = key := fun e => h e.symm
      simp [upsertEntry, h, h']
  | cons e rest ih =>
    obtain ⟨other, v⟩ := e
    by_cases hk : other = k
    · subst hk
      by_cases h : key = other
      · simp [upsertEntry, h]
      · have h' : ¬other = key := fun e => h e.symm
        simp [upsertEntry, h, h']
    · by_cases h : other = key
      · subst h
        simp [upsertEntry, hk]
      · simp only [upsertEntry, if_neg hk, List.find?_cons, decide_eq_false h,
          decide_eq_false hk]
        exact ih

theorem get?_upsert (m : OrderedMap κ ν) (k key : κ) (f : Option ν → ν) :
    (m.upsert k f).get? key = if key = k then some (f (m.get? k)) else m.get? key :=
  find?_upsertEntry k key f m.entries

theorem get?_insert (m : OrderedMap κ ν) (k key : κ) (v : ν) :
    (m.insert k v).get? key = if key = k then some v else m.get? key :=
  get?_upsert m k key _

theorem get?_erase (m : OrderedMap κ ν) (k key : κ) :
    (m.erase k).get? key = if key = k then none else m.get? key := by
  by_cases h : key = k
  · subst h
    rw [if_pos rfl]
    have hnone : ((m.erase key).entries.find? fun e => e.1 = key) = none := by
      rw [List.find?_eq_none]
      intro e he
      simpa [erase] using (List.mem_filter.1 he).2
    simp [get?, hnone]
  · rw [if_neg h]
    unfold get? erase
    rw [List.find?_filter]
    congr 2
    funext e
    by_cases he : e.1 = key
    · simp [he, h]
    · simp [he]

theorem keys_upsert (m : OrderedMap κ ν) (k : κ) (f : Option ν → ν) :
    (m.upsert k f).keys = if k ∈ m.keys then m.keys else m.keys ++ [k] :=
  keys_upsertEntry k f m.entries

theorem keys_insert (m : OrderedMap κ ν) (k : κ) (v : ν) :
    (m.insert k v).keys = if k ∈ m.keys then m.keys else m.keys ++ [k] :=
  keys_upsert m k _

end OrderedMap

/-- Sets that remember the order of insertion. -/
abbrev OrderedSet (κ : Type) := OrderedMap κ Unit

namespace OrderedSet

variable {κ : Type} [DecidableEq κ]

/-- Adds an element at the end unless it is present. -/
def add (s : OrderedSet κ) (k : κ) : OrderedSet κ := OrderedMap.insert s k ()

/-- The set of the elements of a list, in the order of first occurrence. -/
def ofElements (l : List κ) : OrderedSet κ := l.foldl add OrderedMap.empty

end OrderedSet

end Storyboard
