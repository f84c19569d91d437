import Storyboard.Proofs.Json.Reordering

/-!
# Faithful forms

A value has a faithful form in JSON if it is read back from what is written, whatever the
order of fields there, provided that its numbers are finite.  Only finite numbers are
read, so that the proviso cannot be dropped.  A record with faithful fields is faithful,
and so is a list with faithful members.
-/

namespace Storyboard.Json

variable {β : Type}

/-- A reading and a writing that fit, and the numbers that are written. -/
structure Faithful (read : Json → Option β) (write : β → Json) (numbers : β → List Float) :
    Prop where
  reads_back : ∀ v, (∀ x ∈ numbers v, Scalar.isFinite x = true) → read (write v) = some v
  isFinite : ∀ j v, read j = some v → ∀ x ∈ numbers v, Scalar.isFinite x = true
  isUnordered : IsUnordered read

namespace Faithful

theorem of_no_numbers {read : Json → Option β} {write : β → Json}
    (hback : ∀ v, read (write v) = some v) (hunordered : IsUnordered read) :
    Faithful read write fun _ => [] where
  reads_back v _ := hback v
  isFinite _ _ _ _ hx := absurd hx List.not_mem_nil
  isUnordered := hunordered

theorem number : Faithful number? ofFloat fun x => [x] where
  reads_back x h := number?_ofFloat (h x (List.mem_singleton_self x))
  isFinite j x h y hy := by
    obtain rfl := List.mem_singleton.mp hy
    exact isFinite_of_number? h
  isUnordered := isUnordered_number

theorem texts : Faithful texts? ofTexts fun _ => [] :=
  of_no_numbers texts?_ofTexts (isUnordered_list isUnordered_text)

section Composed

variable {read : Json → Option β} {write : β → Json} {numbers : β → List Float}
  (h : Faithful read write numbers)

include h

/-- What is written is read back, in whatever order its fields are, if its numbers are finite. -/
theorem read_eq_some_iff {v : β} {j : Json} (hj : Reordered (write v) j) :
    read j = some v ↔ ∀ x ∈ numbers v, Scalar.isFinite x = true := by
  rw [← h.isUnordered _ _ hj]
  exact ⟨h.isFinite _ v, h.reads_back v⟩

theorem list : Faithful (list? read) (fun vs => .arr (vs.map write)) fun vs =>
    vs.flatMap numbers where
  reads_back vs hvs := by
    apply list?_map
    intro v hv
    exact h.reads_back v fun x hx => hvs x (List.mem_flatMap.mpr ⟨v, hv, hx⟩)
  isFinite j vs hvs x hx := by
    obtain ⟨v, hv, hx⟩ := List.mem_flatMap.mp hx
    obtain ⟨items, -, hmapped⟩ := Option.bind_eq_some_iff.mp hvs
    obtain ⟨i, hi, rfl⟩ := List.getElem_of_mem hv
    obtain ⟨item, -, hread⟩ :=
      exists_getElem?_of_mapM_eq_some hmapped (List.getElem?_eq_getElem hi)
    exact h.isFinite item _ hread x hx
  isUnordered := isUnordered_list h.isUnordered

variable {r : Record} {name : String} {v : β}

theorem required_eq (hfield : r.lookup name = some (write v))
    (hv : ∀ x ∈ numbers v, Scalar.isFinite x = true) : r.required name read = some v := by
  rw [Record.required, hfield]
  exact h.reads_back v hv

theorem isFinite_of_required (hv : r.required name read = some v) :
    ∀ x ∈ numbers v, Scalar.isFinite x = true := by
  obtain ⟨j, -, hread⟩ := Option.bind_eq_some_iff.mp hv
  exact h.isFinite j v hread

end Composed

section Fields

variable {r : Record} {name : String}

theorem required_text {text : String} (hfield : r.lookup name = some (.str text)) :
    r.required name text? = some text := by
  rw [Record.required, hfield]
  rfl

theorem required_number {x : Float} (hfield : r.lookup name = some (ofFloat x))
    (hx : Scalar.isFinite x = true) : r.required name number? = some x :=
  number.required_eq hfield (List.forall_mem_singleton.mpr hx)

theorem isFinite_of_required_number {x : Float} (h : r.required name number? = some x) :
    Scalar.isFinite x = true :=
  number.isFinite_of_required h x (List.mem_singleton_self x)

end Fields

end Faithful

end Storyboard.Json
