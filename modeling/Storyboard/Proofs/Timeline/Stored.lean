import Storyboard.Proofs.Json.Faithful
import Storyboard.Proofs.OrderedMap
import Storyboard.Proofs.Script.Storable
import Storyboard.Timeline.Wire

/-!
# Timelines and registries that are read back

A timeline and the registry of its elements are stored as JSON.  They are read back as
they were if, and only if, all their numbers are finite: there is no number in JSON for
another double.
-/

namespace Storyboard

open Json

/-! ## Words -/

theorem Easing.faithful : Faithful Easing.ofJson? (fun e => .str e.name) fun _ => [] := by
  refine .of_no_numbers (fun e => ?_) fun j j' h => ?_
  · cases e <;> rfl
  · rw [Easing.ofJson?, Easing.ofJson?, isUnordered_word j j' h]

theorem Property.faithful : Faithful Property.ofJson? (fun p => .str p.name) fun _ => [] := by
  refine .of_no_numbers (fun p => ?_) fun j j' h => ?_
  · cases p <;> rfl
  · rw [Property.ofJson?, Property.ofJson?, isUnordered_word j j' h]

theorem LineStyle.faithful : Faithful LineStyle.ofJson? (fun s => .str s.name) fun _ => [] := by
  refine .of_no_numbers (fun s => ?_) fun j j' h => ?_
  · cases s <;> rfl
  · have hword : ∀ j : Json, LineStyle.ofJson? j = j.wantWord.toOption.map ofName := by
      intro j
      unfold LineStyle.ofJson? want
      cases j.wantWord <;> rfl
    have hsame := isUnordered_wantWord j j' h
    dsimp only at hsame
    rw [hword, hword, hsame]

/-! ## Keyframes and tracks -/

theorem KeyValue.faithful :
    Faithful KeyValue.ofJson? KeyValue.toJson fun v => v.number?.toList where
  reads_back v h := by
    cases v with
    | bool | color | null => rfl
    | number x =>
        have hx := h x (List.mem_singleton_self x)
        have hback := number?_ofFloat hx
        rw [ofFloat, if_pos hx] at hback
        rw [toJson, ofFloat, if_pos hx]
        exact congrArg (Option.map number) hback
  isFinite j v h x hx := by
    cases j with
    | null | bool | str =>
        cases h
        exact absurd hx List.not_mem_nil
    | arr | obj => cases h
    | int | float =>
        obtain ⟨y, hy, rfl⟩ := Option.map_eq_some_iff.mp h
        obtain rfl := List.mem_singleton.mp hx
        exact isFinite_of_number? hy
  isUnordered := isUnordered_of_objects (fun _ _ => rfl) fun _ _ _ => rfl

/-- The numbers that a keyframe is written with. -/
def Keyframe.numbers (k : Keyframe Float) : List Float := k.time :: k.value.number?.toList

theorem Keyframe.faithful : Faithful Keyframe.ofJson? Keyframe.toJson Keyframe.numbers where
  reads_back k h := by
    obtain ⟨time, value, easing⟩ := k
    obtain ⟨htime, hvalue⟩ := List.forall_mem_cons.mp h
    simp only [ofJson?, Option.bind_eq_bind, Option.bind_eq_some_iff]
    refine ⟨_, rfl, time, Faithful.required_number rfl htime, value,
      KeyValue.faithful.required_eq rfl hvalue, easing, ?_, rfl⟩
    cases easing with
    | none => rfl
    | some e => exact congrArg (Option.map some) (Easing.faithful.reads_back e (by simp))
  isFinite j k h := by
    simp only [ofJson?, Option.bind_eq_bind, Option.bind_eq_some_iff] at h
    obtain ⟨r, -, time, htime, value, hvalue, easing, -, h⟩ := h
    cases h
    exact List.forall_mem_cons.mpr ⟨Faithful.isFinite_of_required_number htime,
      KeyValue.faithful.isFinite_of_required hvalue⟩
  isUnordered := by
    refine isUnordered_record fun r r' h => ?_
    simp only [h.required isUnordered_number, h.required KeyValue.faithful.isUnordered,
      h.optional Easing.faithful.isUnordered]

/-- The numbers that a track is written with. -/
def Track.numbers (t : Track Float) : List Float := t.keyframes.toList.flatMap Keyframe.numbers

theorem Track.faithful : Faithful Track.ofJson? Track.toJson Track.numbers where
  reads_back t h := by
    obtain ⟨⟨property, target⟩, ⟨keyframes⟩⟩ := t
    simp only [ofJson?, Option.bind_eq_bind, Option.bind_eq_some_iff]
    exact ⟨_, rfl, target, Faithful.required_text rfl, property,
      Property.faithful.required_eq rfl (by simp), keyframes,
      Keyframe.faithful.list.required_eq rfl h, rfl⟩
  isFinite j t h := by
    simp only [ofJson?, Option.bind_eq_bind, Option.bind_eq_some_iff] at h
    obtain ⟨r, -, target, -, property, -, keyframes, hkeyframes, h⟩ := h
    cases h
    exact Keyframe.faithful.list.isFinite_of_required hkeyframes
  isUnordered := by
    refine isUnordered_record fun r r' h => ?_
    simp only [h.required isUnordered_text, h.required Property.faithful.isUnordered,
      h.required Keyframe.faithful.list.isUnordered]

/-! ## The camera -/

/-- The numbers that a vector is written with. -/
def Vec.numbers (v : Vec Float) : List Float := [v.x, v.y, v.z]

theorem Vec.faithful : Faithful Vec.ofJson? Vec.toJson Vec.numbers where
  reads_back v h := by
    obtain ⟨hx, hy, hz⟩ : Scalar.isFinite v.x = true ∧ Scalar.isFinite v.y = true ∧
        Scalar.isFinite v.z = true := by simpa [numbers] using h
    simp only [ofJson?, Option.bind_eq_bind, Option.bind_eq_some_iff]
    exact ⟨_, rfl, v.x, Faithful.required_number rfl hx, v.y, Faithful.required_number rfl hy,
      v.z, Faithful.required_number rfl hz, rfl⟩
  isFinite j v h := by
    simp only [ofJson?, Option.bind_eq_bind, Option.bind_eq_some_iff] at h
    obtain ⟨r, -, x, hx, y, hy, z, hz, h⟩ := h
    cases h
    have hx := Faithful.isFinite_of_required_number hx
    have hy := Faithful.isFinite_of_required_number hy
    have hz := Faithful.isFinite_of_required_number hz
    simpa [numbers] using ⟨hx, hy, hz⟩
  isUnordered := by
    refine isUnordered_record fun r r' h => ?_
    simp only [h.required isUnordered_number]

/-- The numbers that a spherical position is written with. -/
def Spherical.numbers (s : Spherical Float) : List Float := [s.radius, s.theta, s.phi]

theorem Spherical.faithful : Faithful Spherical.ofJson? Spherical.toJson Spherical.numbers where
  reads_back _ h := Camera.spherical_ofJson?_toJson h
  isFinite _ _ h := Camera.isFinite_of_spherical h
  isUnordered := by
    refine isUnordered_record fun r r' h => ?_
    simp only [h.required isUnordered_number]

/-- The numbers that a position of the camera is written with. -/
def CameraKey.numbers (k : CameraKey Float) : List Float :=
  k.time :: (k.position.numbers ++ k.lookAt.numbers)

theorem CameraKey.faithful :
    Faithful CameraKey.ofJson? CameraKey.toJson CameraKey.numbers where
  reads_back k h := by
    obtain ⟨htime, h⟩ := List.forall_mem_cons.mp h
    obtain ⟨hposition, hlookAt⟩ := List.forall_mem_append.mp h
    simp only [ofJson?, Option.bind_eq_bind, Option.bind_eq_some_iff]
    exact ⟨_, rfl, k.time, Faithful.required_number rfl htime,
      k.position, Spherical.faithful.required_eq rfl hposition,
      k.lookAt, Vec.faithful.required_eq rfl hlookAt,
      k.easing, Easing.faithful.required_eq rfl (by simp), rfl⟩
  isFinite j k h := by
    simp only [ofJson?, Option.bind_eq_bind, Option.bind_eq_some_iff] at h
    obtain ⟨r, -, time, htime, position, hposition, lookAt, hlookAt, easing, -, h⟩ := h
    cases h
    refine List.forall_mem_cons.mpr ⟨Faithful.isFinite_of_required_number htime, ?_⟩
    exact List.forall_mem_append.mpr ⟨Spherical.faithful.isFinite_of_required hposition,
      Vec.faithful.isFinite_of_required hlookAt⟩
  isUnordered := by
    refine isUnordered_record fun r r' h => ?_
    simp only [h.required isUnordered_number, h.required Spherical.faithful.isUnordered,
      h.required Vec.faithful.isUnordered, h.required Easing.faithful.isUnordered]

/-! ## Timelines -/

/-- The numbers that a segment is written with. -/
def Segment.numbers (s : Segment Float) : List Float :=
  s.start :: s.finish ::
    (s.cameraTrack.toList.flatMap CameraKey.numbers ++ s.tracks.flatMap Track.numbers)

theorem Segment.faithful : Faithful Segment.ofJson? Segment.toJson Segment.numbers where
  reads_back s h := by
    obtain ⟨id, start, finish, narration, measurements, ⟨cameraTrack⟩, tracks⟩ := s
    obtain ⟨hstart, h⟩ := List.forall_mem_cons.mp h
    obtain ⟨hfinish, h⟩ := List.forall_mem_cons.mp h
    obtain ⟨hcamera, htracks⟩ := List.forall_mem_append.mp h
    simp only [ofJson?, Option.bind_eq_bind, Option.bind_eq_some_iff]
    exact ⟨_, rfl, id, Faithful.required_text rfl,
      start, Faithful.required_number rfl hstart,
      finish, Faithful.required_number rfl hfinish,
      narration, Faithful.required_text rfl,
      measurements, Faithful.texts.required_eq rfl (by simp),
      cameraTrack, CameraKey.faithful.list.required_eq rfl hcamera,
      tracks, Track.faithful.list.required_eq rfl htracks, rfl⟩
  isFinite j s h := by
    simp only [ofJson?, Option.bind_eq_bind, Option.bind_eq_some_iff] at h
    obtain ⟨r, -, id, -, start, hstart, finish, hfinish, narration, -, measurements, -,
      cameraTrack, hcamera, tracks, htracks, h⟩ := h
    cases h
    refine List.forall_mem_cons.mpr ⟨Faithful.isFinite_of_required_number hstart, ?_⟩
    refine List.forall_mem_cons.mpr ⟨Faithful.isFinite_of_required_number hfinish, ?_⟩
    exact List.forall_mem_append.mpr ⟨CameraKey.faithful.list.isFinite_of_required hcamera,
      Track.faithful.list.isFinite_of_required htracks⟩
  isUnordered := by
    refine isUnordered_record fun r r' h => ?_
    simp only [h.required isUnordered_text, h.required isUnordered_number,
      h.required Faithful.texts.isUnordered, h.required CameraKey.faithful.list.isUnordered,
      h.required Track.faithful.list.isUnordered]

/-- The numbers that a timeline is written with. -/
def Timeline.numbers (t : Timeline Float) : List Float :=
  t.duration :: t.segments.flatMap Segment.numbers

theorem Timeline.faithful : Faithful Timeline.ofJson? Timeline.toJson Timeline.numbers where
  reads_back t h := by
    obtain ⟨hduration, hsegments⟩ := List.forall_mem_cons.mp h
    simp only [ofJson?, Option.bind_eq_bind, Option.bind_eq_some_iff]
    exact ⟨_, rfl, t.duration, Faithful.required_number rfl hduration,
      t.segments, Segment.faithful.list.required_eq rfl hsegments, rfl⟩
  isFinite j t h := by
    simp only [ofJson?, Option.bind_eq_bind, Option.bind_eq_some_iff] at h
    obtain ⟨r, -, duration, hduration, segments, hsegments, h⟩ := h
    cases h
    exact List.forall_mem_cons.mpr ⟨Faithful.isFinite_of_required_number hduration,
      Segment.faithful.list.isFinite_of_required hsegments⟩
  isUnordered := by
    refine isUnordered_record fun r r' h => ?_
    simp only [h.required isUnordered_number, h.required Segment.faithful.list.isUnordered]

/-! ## Elements -/

/-- The numbers that an element is written with. -/
def Element.numbers (e : Element Float) : List Float := e.form.opacity?.toList

namespace Element

/-- The form and the fields of an element are found whatever the order of fields. -/
theorem tagged?_alike {j j' : Json} (h : Reordered j j') :
    Option.Rel (fun t t' => t.1 = t'.1 ∧ Reordered t.2 t'.2) (tagged? j) (tagged? j') := by
  cases h with
  | refl =>
      cases tagged? j with
      | none => exact .none
      | some t => exact .some ⟨rfl, .refl t.2⟩
  | arr members =>
      cases members with
      | nil => exact .none
      | @cons first _ _ _ hfirst hothers =>
          cases hfirst with
          | arr | obj => exact .none
          | refl =>
              cases first with
              | str name => exact .some ⟨rfl, .arr hothers⟩
              | null | bool | int | float | arr | obj => exact .none
  | obj nodup nodup' names values =>
      have hobj := Reordered.obj nodup nodup' names values
      have hname := hobj.alike_fields.required isUnordered_text "type"
      unfold Record.required at hname
      unfold tagged? field?
      dsimp only
      rw [hname]
      cases (List.lookup "type" _).bind text? with
      | none => exact .none
      | some name => exact .some ⟨rfl, hobj⟩

theorem form?_alike {r r' : Record} (h : r.Alike r') (name : String) :
    form? name r = form? name r' := by
  unfold form?
  split <;> simp only [h.required isUnordered_text, h.required LineStyle.faithful.isUnordered,
    h.required Faithful.texts.isUnordered, h.required isUnordered_number]

/-- The form is read from the fields of an element that is written. -/
theorem form?_written {e : Element Float} (h : ∀ x ∈ e.numbers, Scalar.isFinite x = true) :
    form? e.formName ([("type", .str e.formName), ("id", .str e.id), ("color", .str e.color)] ++
      e.formFields) = some e.form := by
  obtain ⟨id, color, form⟩ := e
  cases form with
  | line a b style =>
      simp only [formName, form?, Option.bind_eq_bind, Option.bind_eq_some_iff]
      exact ⟨a, Faithful.required_text rfl, b, Faithful.required_text rfl, style,
        LineStyle.faithful.required_eq rfl (by simp), rfl⟩
  | path a b => rfl
  | plane points opacity =>
      have hopacity := h opacity (List.mem_singleton_self opacity)
      simp only [formName, form?, Option.bind_eq_bind, Option.bind_eq_some_iff]
      exact ⟨points, Faithful.texts.required_eq rfl (by simp), opacity,
        Faithful.required_number rfl hopacity, rfl⟩
  | tetrahedron vertices opacity =>
      have hopacity := h opacity (List.mem_singleton_self opacity)
      simp only [formName, form?, Option.bind_eq_bind, Option.bind_eq_some_iff]
      exact ⟨vertices, Faithful.texts.required_eq rfl (by simp), opacity,
        Faithful.required_number rfl hopacity, rfl⟩

theorem isFinite_of_form? {name : String} {r : Record} {form : Form Float}
    (h : form? name r = some form) : ∀ x ∈ form.opacity?.toList, Scalar.isFinite x = true := by
  unfold form? at h
  split at h <;>
    simp only [Option.bind_eq_bind, Option.bind_eq_some_iff, reduceCtorEq] at h
  case h_1 =>
    obtain ⟨a, -, b, -, style, -, h⟩ := h
    cases h
    exact fun x hx => absurd hx List.not_mem_nil
  case h_2 =>
    obtain ⟨a, -, b, -, h⟩ := h
    cases h
    exact fun x hx => absurd hx List.not_mem_nil
  case h_3 | h_4 =>
    obtain ⟨points, -, opacity, hopacity, h⟩ := h
    cases h
    exact List.forall_mem_singleton.mpr (Faithful.isFinite_of_required_number hopacity)

theorem faithful : Faithful Element.ofJson? Element.toJson Element.numbers where
  reads_back e h := by
    simp only [ofJson?, Option.bind_eq_bind, Option.bind_eq_some_iff]
    exact ⟨(e.formName, e.toJson), rfl, _, rfl, e.form, form?_written h, e.id,
      Faithful.required_text rfl, e.color, Faithful.required_text rfl, rfl⟩
  isFinite j e h := by
    simp only [ofJson?, Option.bind_eq_bind, Option.bind_eq_some_iff] at h
    obtain ⟨⟨name, fields⟩, -, r, -, form, hform, id, -, color, -, h⟩ := h
    cases h
    exact isFinite_of_form? hform
  isUnordered j j' h := by
    unfold ofJson?
    match tagged? j, tagged? j', tagged?_alike h with
    | _, _, .none => rfl
    | some (name, fields), some (name', fields'), .some ⟨hname, hfields⟩ =>
        obtain rfl : name = name' := hname
        refine isUnordered_record (fun r r' hr => ?_) fields fields' hfields
        simp only [form?_alike hr, hr.required isUnordered_text]

end Element

/-! ## Registries -/

namespace Registry

/-- The numbers that a registry is written with. -/
def numbers (r : Registry Float) : List Float := r.values.flatMap Element.numbers

theorem mem_numbers_iff {r : Registry Float} {x : Float} :
    x ∈ r.numbers ↔ ∃ id e, r.get? id = some e ∧ x ∈ e.numbers := by
  constructor
  · intro h
    obtain ⟨e, he, hx⟩ := List.mem_flatMap.mp h
    obtain ⟨⟨id, e⟩, hentry, rfl⟩ := List.mem_map.mp he
    exact ⟨id, e, OrderedMap.mem_entries_iff.mp hentry, hx⟩
  · rintro ⟨id, e, he, hx⟩
    have hentry := OrderedMap.mem_entries_iff.mpr he
    exact List.mem_flatMap.mpr ⟨e, List.mem_map.mpr ⟨(id, e), hentry, rfl⟩, hx⟩

/-- Reads an element together with its name. -/
def element? (f : String × Json) : Option (String × Element Float) :=
  (Element.ofJson? f.2).map fun e => (f.1, e)

theorem element?_eq_some_iff {f : String × Json} {id : String} {e : Element Float} :
    element? f = some (id, e) ↔ f.1 = id ∧ Element.ofJson? f.2 = some e := by
  simp [element?, and_comm]

theorem ofJson?_eq_some_iff {j : Json} {r : Registry Float} :
    Registry.ofJson? j = some r ↔ ∃ record fields entries, j.record? ["elements"] = some record ∧
      record.lookup "elements" = some (.obj fields) ∧ fields.mapM element? = some entries ∧
      OrderedMap.ofList entries = r := by
  simp only [Registry.ofJson?, Record.required, Option.bind_eq_bind, Option.bind_eq_some_iff]
  constructor
  · rintro ⟨record, hrecord, elements, helements, h⟩
    cases elements with
    | obj fields =>
        obtain ⟨entries, hentries, h⟩ := Option.bind_eq_some_iff.mp h
        exact ⟨record, fields, entries, hrecord, helements, hentries, Option.some_inj.mp h⟩
    | null | bool | int | float | str | arr => cases h
  · rintro ⟨record, fields, entries, hrecord, helements, hentries, rfl⟩
    exact ⟨record, hrecord, _, helements, Option.bind_eq_some_iff.mpr ⟨entries, hentries, rfl⟩⟩

theorem isFinite_of_ofJson? {j : Json} {r : Registry Float} (h : Registry.ofJson? j = some r) :
    ∀ x ∈ r.numbers, Scalar.isFinite x = true := by
  intro x hmem
  obtain ⟨id, e, he, hx⟩ := mem_numbers_iff.mp hmem
  obtain ⟨record, fields, entries, -, -, hentries, rfl⟩ := ofJson?_eq_some_iff.mp h
  obtain ⟨i, hi, hentry⟩ := List.getElem_of_mem (OrderedMap.mem_of_get?_ofList he)
  obtain ⟨f, -, hf⟩ :=
    exists_getElem?_of_mapM_eq_some hentries ((List.getElem?_eq_getElem hi).trans (congrArg _ hentry))
  exact Element.faithful.isFinite f.2 e (element?_eq_some_iff.mp hf).2 x hx

/-- The fields that the elements are written to. -/
def fields (r : Registry Float) : List (String × Json) :=
  r.entries.map fun entry => (entry.1, entry.2.toJson)

theorem nodup_fields (r : Registry Float) : (r.fields.map Prod.fst).Nodup := by
  rw [fields, List.map_map]
  exact r.nodup

theorem mem_fields_iff {r : Registry Float} {id : String} {j : Json} :
    (id, j) ∈ r.fields ↔ ∃ e, r.get? id = some e ∧ e.toJson = j := by
  simp only [fields, List.mem_map, Prod.exists, Prod.mk.injEq, ← OrderedMap.mem_entries_iff]
  constructor
  · rintro ⟨_, e, hentry, rfl, rfl⟩
    exact ⟨e, hentry, rfl⟩
  · rintro ⟨e, hentry, rfl⟩
    exact ⟨id, e, hentry, rfl, rfl⟩

section Finite

variable {r : Registry Float} (h : ∀ x ∈ r.numbers, Scalar.isFinite x = true)

include h

theorem isFinite_of_get? {id : String} {e : Element Float} (he : r.get? id = some e) :
    ∀ x ∈ e.numbers, Scalar.isFinite x = true :=
  fun x hx => h x (mem_numbers_iff.mpr ⟨id, e, he, hx⟩)

/-- A registry is read back with its elements in their order. -/
theorem ofJson?_toJson : Registry.ofJson? r.toJson = some r := by
  refine ofJson?_eq_some_iff.mpr ⟨_, _, r.entries, rfl, rfl, ?_, OrderedMap.ofList_entries r⟩
  apply mapM_map_eq_some
  rintro ⟨id, e⟩ hentry
  have hfinite := isFinite_of_get? h (OrderedMap.mem_entries_iff.mp hentry)
  exact element?_eq_some_iff.mpr ⟨rfl, Element.faithful.reads_back e hfinite⟩

/-- From reordered fields the same elements are read, if not in the same order. -/
theorem exists_ofJson?_of_reordered {j : Json} (hj : Reordered r.toJson j) :
    ∃ r', Registry.ofJson? j = some r' ∧ ∀ id, r'.get? id = r.get? id := by
  have hall : r.toJson.record? ["elements"] = some [("elements", .obj r.fields)] := rfl
  have hfields : [("elements", Json.obj r.fields)].lookup "elements" = some (.obj r.fields) := rfl
  obtain ⟨record, hrecord, halike⟩ := hj.exists_record? hall
  obtain ⟨elements, helements, hreordered⟩ := halike.exists_lookup hfields
  obtain ⟨found, rfl, hnames, hvalues⟩ := hreordered.exists_of_obj r.nodup_fields
  -- every field holds the element of its name
  have hread : ∀ f ∈ found, ∃ e, r.get? f.1 = some e ∧ element? f = some (f.1, e) := by
    rintro ⟨id, v⟩ hf
    obtain ⟨⟨_, _⟩, hwritten, rfl⟩ :=
      List.mem_map.mp ((hnames id).mpr (List.mem_map.mpr ⟨(id, v), hf, rfl⟩))
    obtain ⟨e, he, rfl⟩ := mem_fields_iff.mp hwritten
    refine ⟨e, he, element?_eq_some_iff.mpr ⟨rfl, ?_⟩⟩
    exact (Element.faithful.read_eq_some_iff (hvalues _ _ v hwritten hf)).mpr
      (isFinite_of_get? h he)
  obtain ⟨entries, hentries, hmem⟩ := exists_mapM_eq_some
    (fun f hf => (hread f hf).elim fun e he => ⟨(f.1, e), he.2⟩ :
      ∀ f ∈ found, ∃ entry, element? f = some entry)
  refine ⟨_, ofJson?_eq_some_iff.mpr ⟨record, found, entries, hrecord, helements, hentries, rfl⟩,
    OrderedMap.get?_ofList_of_mem_iff fun id e => ?_⟩
  rw [hmem]
  constructor
  · rintro ⟨f, hf, hentry⟩
    obtain ⟨e', he', hread⟩ := hread f hf
    cases hread.symm.trans hentry
    exact he'
  · intro he
    have hwritten : (id, e.toJson) ∈ r.fields := mem_fields_iff.mpr ⟨e, he, rfl⟩
    obtain ⟨f, hf, rfl⟩ :=
      List.mem_map.mp ((hnames id).mp (List.mem_map.mpr ⟨_, hwritten, rfl⟩))
    obtain ⟨e', he', hread⟩ := hread f hf
    cases he.symm.trans he'
    exact ⟨f, hf, hread⟩

end Finite

end Registry

/-! ## What is read back -/

/--
Timelines and registries are read back exactly if all their numbers are finite, and so is
the value of a keyframe with its kind.  The order of fields does not matter, but for the
order in which a registry keeps its elements.
-/
theorem stored_reads_back :
    (∀ (t : Timeline Float) (j : Json), Reordered t.toJson j →
      (Timeline.ofJson? j = some t ↔ ∀ x ∈ t.numbers, Scalar.isFinite x = true)) ∧
    (∀ v : KeyValue Float, KeyValue.ofJson? v.toJson = some v ↔
      ∀ x, v = .number x → Scalar.isFinite x = true) ∧
    (∀ r : Registry Float, Registry.ofJson? r.toJson = some r ↔
      ∀ x ∈ r.numbers, Scalar.isFinite x = true) ∧
    ∀ (r : Registry Float) (j : Json), Reordered r.toJson j →
      ((∃ r', Registry.ofJson? j = some r' ∧ ∀ id, r'.get? id = r.get? id) ↔
        ∀ x ∈ r.numbers, Scalar.isFinite x = true) := by
  refine ⟨fun t j hj => Timeline.faithful.read_eq_some_iff hj, fun v => ?_, fun r => ?_,
    fun r j hj => ⟨?_, fun h => Registry.exists_ofJson?_of_reordered h hj⟩⟩
  · rw [KeyValue.faithful.read_eq_some_iff (.refl _)]
    cases v <;> simp [KeyValue.number?]
  · exact ⟨Registry.isFinite_of_ofJson?, Registry.ofJson?_toJson⟩
  · rintro ⟨r', hr', hsame⟩ x hx
    obtain ⟨id, e, he, hx⟩ := Registry.mem_numbers_iff.mp hx
    rw [← hsame] at he
    exact Registry.isFinite_of_ofJson? hr' x (Registry.mem_numbers_iff.mpr ⟨id, e, he, hx⟩)

/-- A scene in which a line is pulsed while a parameter changes. -/
def storedTimeline : Timeline Float where
  duration := 1.5
  segments := [{
    id := "pulsing"
    start := 0
    finish := 1.5
    narration := "Look."
    measurements := ["gap"]
    cameraTrack := #[⟨0, ⟨2.5, 45, 35⟩, ⟨0, 0, 0⟩, .linear⟩]
    tracks := [
      ⟨⟨.visibility, "line"⟩, #[⟨0, .bool true, none⟩]⟩,
      ⟨⟨.highlight, "line"⟩, #[⟨0, .color "#ff0000", none⟩, ⟨1, .null, none⟩]⟩,
      ⟨⟨.parameter, "t"⟩, #[⟨0, .number 0.25, none⟩, ⟨1.5, .number 1, some .easeInOut⟩]⟩] }]

/-- A line and a plane. -/
def storedRegistry : Registry Float where
  entries := [("line", ⟨"line", "#888888", .line "A" "B" .dashed⟩),
    ("base", ⟨"base", "#3b82f6", .plane ["A", "B", "C"] 0.2⟩)]
  nodup := by decide

theorem stored_reads_back_swapped :
    Timeline.ofJson? (.obj [("scenes", .arr (storedTimeline.segments.map Segment.toJson)),
      ("duration", .ofFloat 1.5)]) = some storedTimeline ∧
    KeyValue.ofJson? (KeyValue.toJson (.number 0.25)) = some (.number 0.25) ∧
    Registry.ofJson? storedRegistry.toJson = some storedRegistry ∧
    ∃ r', Registry.ofJson? (.obj [("elements", .obj storedRegistry.fields.reverse)]) = some r' ∧
      ∀ id, r'.get? id = storedRegistry.get? id := by
  obtain ⟨htimeline, hvalue, hregistry, hreordered⟩ := stored_reads_back
  have hnumbers : ∀ x ∈ storedRegistry.numbers, Scalar.isFinite x = true := by decide +kernel
  refine ⟨(htimeline storedTimeline _ (.of_perm (by decide) (.swap _ _ _))).mpr (by decide +kernel),
    (hvalue _).mpr fun x hx => ?_, (hregistry _).mpr hnumbers,
    (hreordered storedRegistry _ ?_).mpr hnumbers⟩
  · cases hx
    decide +kernel
  · refine .obj (by decide) (by decide) (fun _ => Iff.rfl) fun name v v' hv hv' => ?_
    cases List.mem_singleton.mp hv
    cases List.mem_singleton.mp hv'
    exact .of_perm storedRegistry.nodup_fields storedRegistry.fields.reverse_perm.symm

end Storyboard
