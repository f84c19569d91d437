import Mathlib.Data.List.Forall2
import Mathlib.Data.Option.Defs
import Storyboard.Proofs.Json.Fields

/-!
# The order of fields

An object means the same in whatever order its fields are kept.  Two values are
reordered if they differ in the order of the fields of their objects only, at every
depth.  Looking up by name does not tell them apart, so that no record does that is read
field by field.
-/

namespace Storyboard.Json

/-- Two values whose objects have the same fields, in any order. -/
inductive Reordered : Json → Json → Prop
  | refl (j : Json) : Reordered j j
  | arr {items items' : List Json} (members : List.Forall₂ Reordered items items') :
      Reordered (.arr items) (.arr items')
  | obj {fields fields' : List (String × Json)} (nodup : (fields.map Prod.fst).Nodup)
      (nodup' : (fields'.map Prod.fst).Nodup)
      (names : ∀ name, name ∈ fields.map Prod.fst ↔ name ∈ fields'.map Prod.fst)
      (values : ∀ name j j', (name, j) ∈ fields → (name, j') ∈ fields' → Reordered j j') :
      Reordered (.obj fields) (.obj fields')

/-- Two records with the same fields. -/
def Record.Alike (r r' : Record) : Prop :=
  ∀ name, Option.Rel Reordered (r.lookup name) (r'.lookup name)

/-! ## Looking up -/

theorem lookup_eq_some_iff_mem {fields : List (String × Json)}
    (h : (fields.map Prod.fst).Nodup) {name : String} {j : Json} :
    fields.lookup name = some j ↔ (name, j) ∈ fields := by
  induction fields with
  | nil => simp
  | cons f rest ih =>
      obtain ⟨key, value⟩ := f
      obtain ⟨hkey, hrest⟩ := List.nodup_cons.mp h
      rw [List.lookup_cons, List.mem_cons, Prod.mk.injEq]
      cases hname : name == key with
      | true =>
          obtain rfl := beq_iff_eq.mp hname
          have hother : (name, j) ∉ rest := fun hmem =>
            hkey (List.mem_map.mpr ⟨(name, j), hmem, rfl⟩)
          simp [hother, eq_comm]
      | false =>
          simp [beq_eq_false_iff_ne.mp hname, ih hrest]

theorem eq_of_mem_of_nodup {fields : List (String × Json)} (h : (fields.map Prod.fst).Nodup)
    {name : String} {v v' : Json} (hv : (name, v) ∈ fields) (hv' : (name, v') ∈ fields) :
    v = v' := by
  rw [← lookup_eq_some_iff_mem h] at hv hv'
  exact Option.some_inj.mp (hv.symm.trans hv')

theorem Record.Alike.refl (r : Record) : r.Alike r := by
  intro name
  cases r.lookup name with
  | none => exact .none
  | some j => exact .some (.refl j)

theorem Record.Alike.exists_lookup {r r' : Record} (h : r.Alike r') {name : String} {v : Json}
    (hv : r.lookup name = some v) : ∃ v', r'.lookup name = some v' ∧ Reordered v v' := by
  have hrel := h name
  rw [hv] at hrel
  match r'.lookup name, hrel with
  | some v', .some hvalue => exact ⟨v', rfl, hvalue⟩

namespace Reordered

variable {j j' : Json}

theorem alike_zip (names : List String) {items items' : List Json}
    (h : List.Forall₂ Reordered items items') :
    Record.Alike (names.zip items) (names.zip items') := by
  induction names generalizing items items' with
  | nil => exact Record.Alike.refl []
  | cons name rest ih =>
      cases h with
      | nil => exact Record.Alike.refl []
      | cons hfirst hothers =>
          intro key
          rw [List.zip_cons_cons, List.zip_cons_cons, List.lookup_cons, List.lookup_cons]
          cases key == name with
          | true => exact .some hfirst
          | false => exact ih hothers key

theorem alike_fields {fields fields' : List (String × Json)}
    (h : Reordered (.obj fields) (.obj fields')) : Record.Alike fields fields' := by
  cases h with
  | refl => exact Record.Alike.refl fields
  | obj nodup nodup' names values =>
      intro name
      cases hlookup : fields.lookup name with
      | none =>
          have habsent : name ∉ fields.map Prod.fst := by
            intro hmem
            obtain ⟨f, hf, rfl⟩ := List.mem_map.mp hmem
            have hfound := List.lookup_isSome_iff.mpr ⟨f, hf, BEq.rfl⟩
            rw [hlookup] at hfound
            cases hfound
          rw [lookup_eq_none_of_notMem ((names name).not.mp habsent)]
          exact .none
      | some v =>
          have hv := (lookup_eq_some_iff_mem nodup).mp hlookup
          obtain ⟨f, hf, rfl⟩ := List.mem_map.mp ((names name).mp (List.mem_map.mpr ⟨_, hv, rfl⟩))
          rw [(lookup_eq_some_iff_mem nodup').mpr hf]
          exact .some (values _ v f.2 hv hf)

/-- A permutation of its fields reorders an object. -/
theorem of_perm {fields fields' : List (String × Json)} (hnodup : (fields.map Prod.fst).Nodup)
    (h : fields.Perm fields') : Reordered (.obj fields) (.obj fields') := by
  refine .obj hnodup ((h.map Prod.fst).nodup hnodup) (fun name => (h.map Prod.fst).mem_iff) ?_
  intro name v v' hv hv'
  rw [eq_of_mem_of_nodup hnodup hv (h.mem_iff.mpr hv')]
  exact .refl v'

/-- An object is reordered to an object with the same names and the same values. -/
theorem exists_of_obj {fields : List (String × Json)} (hnodup : (fields.map Prod.fst).Nodup)
    (h : Reordered (.obj fields) j) :
    ∃ fields', j = .obj fields' ∧
      (∀ name, name ∈ fields.map Prod.fst ↔ name ∈ fields'.map Prod.fst) ∧
      ∀ name v v', (name, v) ∈ fields → (name, v') ∈ fields' → Reordered v v' := by
  cases h with
  | refl =>
      refine ⟨fields, rfl, fun _ => Iff.rfl, fun name v v' hv hv' => ?_⟩
      rw [eq_of_mem_of_nodup hnodup hv hv']
      exact .refl v'
  | obj _ _ names values => exact ⟨_, rfl, names, values⟩

/-- Reordered values hold the same fields of a record. -/
theorem record? (h : Reordered j j') (names : List String) :
    Option.Rel Record.Alike (j.record? names) (j'.record? names) := by
  cases h with
  | refl =>
      cases j.record? names with
      | none => exact .none
      | some r => exact .some (Record.Alike.refl r)
  | arr members =>
      unfold Json.record?
      dsimp only
      rw [← members.length_eq]
      split_ifs
      · exact .some (alike_zip names members)
      · exact .none
  | obj nodup nodup' hnames values =>
      exact .some (alike_fields (.obj nodup nodup' hnames values))

theorem exists_record? (h : Reordered j j') {names : List String} {r : Record}
    (hr : j.record? names = some r) : ∃ r', j'.record? names = some r' ∧ r.Alike r' := by
  have hrel := h.record? names
  rw [hr] at hrel
  match j'.record? names, hrel with
  | some r', .some halike => exact ⟨r', rfl, halike⟩

end Reordered

/-! ## Readings -/

/-- A reading that does not depend on the order of fields. -/
def IsUnordered {β : Type} (read : Json → Option β) : Prop :=
  ∀ j j', Reordered j j' → read j = read j'

section Readings

variable {β : Type}

/-- A reading that tells no arrays apart has to be tried on objects only. -/
theorem isUnordered_of_objects {read : Json → Option β}
    (harr : ∀ items items', read (.arr items) = read (.arr items'))
    (hobj : ∀ fields fields', Reordered (.obj fields) (.obj fields') →
      read (.obj fields) = read (.obj fields')) : IsUnordered read := by
  intro j j' h
  cases h with
  | refl => rfl
  | arr => exact harr _ _
  | obj nodup nodup' names values => exact hobj _ _ (.obj nodup nodup' names values)

theorem isUnordered_text : IsUnordered text? :=
  isUnordered_of_objects (fun _ _ => rfl) fun _ _ _ => rfl

theorem isUnordered_number : IsUnordered number? :=
  isUnordered_of_objects (fun _ _ => rfl) fun _ _ _ => rfl

theorem isUnordered_list {read : Json → Option β} (h : IsUnordered read) :
    IsUnordered (list? read) := by
  intro j j' hj
  cases hj with
  | refl => rfl
  | obj => rfl
  | arr members =>
      unfold list? items?
      dsimp only [Option.bind_some]
      induction members with
      | nil => rfl
      | cons hfirst _ ih => rw [List.mapM_cons, List.mapM_cons, h _ _ hfirst, ih]

theorem isUnordered_record {names : List String} {read : Record → Option β}
    (h : ∀ r r', Record.Alike r r' → read r = read r') :
    IsUnordered fun j => j.record? names >>= read := by
  intro j j' hj
  dsimp only
  match j.record? names, j'.record? names, hj.record? names with
  | _, _, .none => rfl
  | _, _, .some halike => exact h _ _ halike

theorem Record.Alike.required {r r' : Record} (h : r.Alike r') {read : Json → Option β}
    (hread : IsUnordered read) (name : String) :
    r.required name read = r'.required name read := by
  unfold Record.required
  match r.lookup name, r'.lookup name, h name with
  | _, _, .none => rfl
  | _, _, .some hvalue => exact hread _ _ hvalue

theorem Record.Alike.optional {r r' : Record} (h : r.Alike r') {read : Json → Option β}
    (hread : IsUnordered read) (name : String) :
    r.optional name read = r'.optional name read := by
  unfold Record.optional
  match r.lookup name, r'.lookup name, h name with
  | _, _, .none => rfl
  | _, _, .some hvalue =>
      cases hvalue with
      | refl => rfl
      | arr members => exact congrArg (Option.map some) (hread _ _ (.arr members))
      | obj nodup nodup' names values =>
          exact congrArg (Option.map some) (hread _ _ (.obj nodup nodup' names values))

end Readings

/-! ## Words -/

/-- Reordered objects have both no field, or one, or several. -/
theorem Reordered.fields_cases {fields fields' : List (String × Json)}
    (h : Reordered (.obj fields) (.obj fields')) :
    (fields = [] ∧ fields' = []) ∨
      (∃ name v v', fields = [(name, v)] ∧ fields' = [(name, v')] ∧ Reordered v v') ∨
      ((∃ f g rest, fields = f :: g :: rest) ∧ ∃ f g rest, fields' = f :: g :: rest) := by
  cases h with
  | refl =>
      match fields with
      | [] => exact Or.inl ⟨rfl, rfl⟩
      | [(name, v)] => exact Or.inr (Or.inl ⟨name, v, v, rfl, rfl, .refl v⟩)
      | f :: g :: rest => exact Or.inr (Or.inr ⟨⟨f, g, rest, rfl⟩, f, g, rest, rfl⟩)
  | obj nodup nodup' names values =>
      have hperm := (List.perm_ext_iff_of_nodup nodup nodup').mpr names
      have hlength : fields.length = fields'.length := by simpa using hperm.length_eq
      match fields, fields', hlength with
      | [], [], _ => exact Or.inl ⟨rfl, rfl⟩
      | [(name, v)], [(name', v')], _ =>
          obtain rfl : name = name' := by simpa using hperm
          have hv := values name v v' (List.mem_singleton_self _) (List.mem_singleton_self _)
          exact Or.inr (Or.inl ⟨name, v, v', rfl, rfl, hv⟩)
      | f :: g :: rest, f' :: g' :: rest', _ =>
          exact Or.inr (Or.inr ⟨⟨f, g, rest, rfl⟩, f', g', rest', rfl⟩)

theorem isUnordered_word : IsUnordered word? := by
  have hseveral (f g : String × Json) (rest : List (String × Json)) :
      (obj (f :: g :: rest)).word? = none := by
    obtain ⟨name, v⟩ := f
    cases v <;> rfl
  refine isUnordered_of_objects (fun _ _ => rfl) fun fields fields' h => ?_
  rcases h.fields_cases with
    ⟨rfl, rfl⟩ | ⟨name, v, v', rfl, rfl, hv⟩ | ⟨⟨f, g, rest, rfl⟩, f', g', rest', rfl⟩
  · rfl
  · cases hv <;> rfl
  · rw [hseveral, hseveral]

/-- What does not hold a wanted word does not, whatever the complaint. -/
theorem isUnordered_wantWord : IsUnordered fun j => j.wantWord.toOption := by
  refine isUnordered_of_objects (fun _ _ => rfl) fun fields fields' h => ?_
  rcases h.fields_cases with
    ⟨rfl, rfl⟩ | ⟨name, v, v', rfl, rfl, hv⟩ | ⟨⟨f, g, rest, rfl⟩, f', g', rest', rfl⟩
  · rfl
  · -- the one field may hold an empty object
    have hunit : IsUnordered fun v => (obj [(name, v)]).wantWord.toOption := by
      refine isUnordered_of_objects (fun _ _ => rfl) fun inner inner' h => ?_
      rcases h.fields_cases with
        ⟨rfl, rfl⟩ | ⟨_, _, _, rfl, rfl, -⟩ | ⟨⟨_, _, _, rfl⟩, _, _, _, rfl⟩ <;> rfl
    exact hunit v v' hv
  · rfl

end Storyboard.Json
