import Storyboard.Proofs.Json.Fields
import Storyboard.Script.Wire

/-!
# Steps and cameras that can be stored

There is no number in JSON for a double that is not finite, and what is kept unread must
not be readable, or else it would come back as something different.  Whatever has been
read obeys both, and whatever obeys both is written so that it is read back.
-/

namespace Storyboard

open Json

/-! ## Numbers -/

def Shape.numbers : Shape Float → List Float
  | .line .. | .path .. => []
  | .plane _ opacity | .tetrahedron _ opacity => opacity.toList

/-- The numbers that a step is written with. -/
def Step.numbers : Step Float → List Float
  | .reveal _ | .hide _ | .highlight .. | .unread _ => []
  | .fadeIn _ duration | .fadeOut _ duration => duration.toList
  | .pulse _ _ times => times.toList
  | .create _ _ shape => shape.numbers
  | .animatePoint _ start finish duration => start :: finish :: duration.toList
  | .fold _ start finish duration => start.toList ++ finish.toList ++ duration.toList
  | .wait duration => [duration]

/-- A step that is read back when it has been written. -/
structure Step.IsStorable (s : Step Float) : Prop where
  isFinite : ∀ x ∈ s.numbers, Scalar.isFinite x = true
  unreadable : ∀ u, s = .unread u → Action.ofJson u.raw = .step (.unread u)

/-- The numbers that a camera is written with. -/
def Camera.numbers : Camera Float → List Float
  | .full shot => [shot.position.radius, shot.position.theta, shot.position.phi]
  | .preset _ | .unread _ => []

/-- A camera that is read back when it has been written. -/
structure Camera.IsStorable (c : Camera Float) : Prop where
  isFinite : ∀ x ∈ c.numbers, Scalar.isFinite x = true
  unreadable : ∀ raw, c = .unread raw → Camera.ofJson raw = .unread raw

/-! ## What has been read -/

section Reading

variable {r : Record} {name : String}

theorem isFinite_of_demand {x : Float} (h : r.demand name wantNumber = .read x) :
    Scalar.isFinite x = true := by
  obtain ⟨j, -, hj⟩ := Record.exists_of_demand_eq_read h
  exact isFinite_of_wantNumber hj

theorem isFinite_of_allow {v : Option Float} (h : r.allow name wantNumber = .read v) :
    ∀ x ∈ v.toList, Scalar.isFinite x = true := by
  intro x hx
  obtain rfl := Option.mem_toList.mp hx
  obtain ⟨j, hj⟩ := Record.exists_of_allow_eq_read h
  exact isFinite_of_wantNumber hj

theorem isFinite_of_allowDefault {x default : Float} (hdefault : Scalar.isFinite default = true)
    (h : r.allowDefault name default wantNumber = .read x) : Scalar.isFinite x = true := by
  unfold Record.allowDefault at h
  split at h
  next =>
    cases h
    exact hdefault
  next j _ => exact isFinite_of_wantNumber (Record.readField_eq_read h)

end Reading

namespace Action

/-- The fields of a verb are those of a step with finite numbers, or of a group. -/
theorem ofRecord_cases {verb : Verb} {members : Option (List (Action Float))} {r : Record}
    {a : Action Float} (h : ofRecord verb members r = .read a) :
    (∃ s, a = .step s ∧ s.verb? = some verb ∧ ∀ x ∈ s.numbers, Scalar.isFinite x = true) ∨
      ∃ actions, verb = .together ∧ members = some actions ∧ a = .together actions := by
  have hnone : ∀ x ∈ ([] : List Float), Scalar.isFinite x = true :=
    fun x hx => absurd hx List.not_mem_nil
  cases verb with
  | reveal | hide =>
      obtain ⟨target, -, rfl⟩ := Reading.map_eq_read h
      exact Or.inl ⟨_, rfl, rfl, hnone⟩
  | fadeIn | fadeOut =>
      obtain ⟨_, duration, h₁, hduration, rfl⟩ := Reading.seq_eq_read h
      obtain ⟨target, -, rfl⟩ := Reading.map_eq_read h₁
      exact Or.inl ⟨_, rfl, rfl, isFinite_of_allow hduration⟩
  | highlight =>
      obtain ⟨_, color, h₁, -, rfl⟩ := Reading.seq_eq_read h
      obtain ⟨target, -, rfl⟩ := Reading.map_eq_read h₁
      exact Or.inl ⟨_, rfl, rfl, hnone⟩
  | pulse =>
      obtain ⟨_, times, h₁, htimes, rfl⟩ := Reading.seq_eq_read h
      obtain ⟨_, color, h₂, -, rfl⟩ := Reading.seq_eq_read h₁
      obtain ⟨target, -, rfl⟩ := Reading.map_eq_read h₂
      exact Or.inl ⟨_, rfl, rfl, isFinite_of_allow htimes⟩
  | drawLine =>
      obtain ⟨_, color, h₁, -, rfl⟩ := Reading.seq_eq_read h
      obtain ⟨_, style, h₂, -, rfl⟩ := Reading.seq_eq_read h₁
      obtain ⟨_, finish, h₃, -, rfl⟩ := Reading.seq_eq_read h₂
      obtain ⟨_, start, h₄, -, rfl⟩ := Reading.seq_eq_read h₃
      obtain ⟨id, -, rfl⟩ := Reading.map_eq_read h₄
      exact Or.inl ⟨_, rfl, rfl, hnone⟩
  | showPath =>
      obtain ⟨_, color, h₁, -, rfl⟩ := Reading.seq_eq_read h
      obtain ⟨_, finish, h₂, -, rfl⟩ := Reading.seq_eq_read h₁
      obtain ⟨_, start, h₃, -, rfl⟩ := Reading.seq_eq_read h₂
      obtain ⟨id, -, rfl⟩ := Reading.map_eq_read h₃
      exact Or.inl ⟨_, rfl, rfl, hnone⟩
  | showPlane | showTetrahedron =>
      obtain ⟨_, opacity, h₁, hopacity, rfl⟩ := Reading.seq_eq_read h
      obtain ⟨_, color, h₂, -, rfl⟩ := Reading.seq_eq_read h₁
      obtain ⟨_, points, h₃, -, rfl⟩ := Reading.seq_eq_read h₂
      obtain ⟨id, -, rfl⟩ := Reading.map_eq_read h₃
      exact Or.inl ⟨_, rfl, rfl, isFinite_of_allow hopacity⟩
  | animatePoint =>
      obtain ⟨_, duration, h₁, hduration, rfl⟩ := Reading.seq_eq_read h
      obtain ⟨_, finish, h₂, hfinish, rfl⟩ := Reading.seq_eq_read h₁
      obtain ⟨_, start, h₃, hstart, rfl⟩ := Reading.seq_eq_read h₂
      obtain ⟨target, -, rfl⟩ := Reading.map_eq_read h₃
      refine Or.inl ⟨_, rfl, rfl, List.forall_mem_cons.mpr ⟨isFinite_of_demand hstart, ?_⟩⟩
      exact List.forall_mem_cons.mpr ⟨isFinite_of_demand hfinish, isFinite_of_allow hduration⟩
  | fold =>
      obtain ⟨_, duration, h₁, hduration, rfl⟩ := Reading.seq_eq_read h
      obtain ⟨_, finish, h₂, hfinish, rfl⟩ := Reading.seq_eq_read h₁
      obtain ⟨_, start, h₃, hstart, rfl⟩ := Reading.seq_eq_read h₂
      obtain ⟨id, -, rfl⟩ := Reading.map_eq_read h₃
      refine Or.inl ⟨_, rfl, rfl, ?_⟩
      refine List.forall_mem_append.mpr ⟨?_, isFinite_of_allow hduration⟩
      exact List.forall_mem_append.mpr ⟨isFinite_of_allow hstart, isFinite_of_allow hfinish⟩
  | together =>
      obtain ⟨actions, hactions, rfl⟩ := Reading.map_eq_read h
      obtain ⟨j, -, hj⟩ := Record.exists_of_demand_eq_read hactions
      cases members with
      | none => cases hj
      | some inner =>
          cases hj
          exact Or.inr ⟨actions, rfl, rfl, rfl⟩
  | wait =>
      obtain ⟨duration, hduration, rfl⟩ := Reading.map_eq_read h
      refine Or.inl ⟨_, rfl, rfl, List.forall_mem_cons.mpr ⟨?_, hnone⟩⟩
      exact isFinite_of_allowDefault (by decide +kernel) hduration

theorem ofObject_cases (fields : List (String × Json)) (members : Option (List (Action Float))) :
    (∃ reason, ofObject fields members = .step (.unread ⟨.obj fields, reason⟩)) ∨
      (∃ s verb, ofObject fields members = .step s ∧ s.verb? = some verb ∧
        ∀ x ∈ s.numbers, Scalar.isFinite x = true) ∨
      ∃ actions, members = some actions ∧ ofObject fields members = .together actions := by
  unfold ofObject
  dsimp only
  split
  next => exact Or.inl ⟨_, rfl⟩
  next word hword =>
    split
    next => exact Or.inl ⟨_, rfl⟩
    next verb hverb =>
      split
      next a hread =>
        rcases ofRecord_cases hread with ⟨s, rfl, hs, hfinite⟩ | ⟨actions, -, hmembers, rfl⟩
        · exact Or.inr (Or.inl ⟨s, verb, rfl, hs, hfinite⟩)
        · exact Or.inr (Or.inr ⟨actions, hmembers, rfl⟩)
      next => exact Or.inl ⟨_, rfl⟩

/-- An action that is read is kept as it came, is a step with finite numbers, or a group. -/
theorem ofJson_cases (j : Json) :
    (∃ reason, ofJson j = .step (.unread ⟨j, reason⟩)) ∨
      (∃ s verb, ofJson j = .step s ∧ s.verb? = some verb ∧
        ∀ x ∈ s.numbers, Scalar.isFinite x = true) ∨
      ∃ actions, ofJson j = .together actions := by
  cases j with
  | obj fields =>
      rw [ofJson]
      rcases ofObject_cases fields (members fields) with hunread | hstep | ⟨actions, -, hgroup⟩
      · exact Or.inl hunread
      · exact Or.inr (Or.inl hstep)
      · exact Or.inr (Or.inr ⟨actions, hgroup⟩)
  | null | bool | int | float | str | arr => exact Or.inl ⟨.noVerb, rfl⟩

/-- What is kept unread is the very value that was to be read. -/
theorem raw_eq_of_ofJson {j : Json} {u : Unread} (h : ofJson j = .step (.unread u)) :
    u.raw = j := by
  rcases ofJson_cases j with ⟨reason, heq⟩ | ⟨s, verb, heq, hverb, -⟩ | ⟨actions, heq⟩
  · cases heq.symm.trans h
    rfl
  · cases heq.symm.trans h
    cases hverb
  · cases heq.symm.trans h

theorem isStorable_of_ofJson {j : Json} {s : Step Float} (h : ofJson j = .step s) :
    s.IsStorable := by
  constructor
  · rcases ofJson_cases j with ⟨reason, heq⟩ | ⟨s', verb, heq, -, hfinite⟩ | ⟨actions, heq⟩
    · cases heq.symm.trans h
      exact fun x hx => absurd hx List.not_mem_nil
    · cases heq.symm.trans h
      exact hfinite
    · cases heq.symm.trans h
  · rintro u rfl
    rw [raw_eq_of_ofJson h]
    exact h

end Action

/-! ## What is written -/

theorem Verb.ofWord?_word (verb : Verb) : Verb.ofWord? verb.word = some verb := by
  cases verb <;> rfl

namespace Step

/-- The fields that a step is written with, that of the verb first. -/
def allFields (verb : Verb) (s : Step Float) : List (String × Option Json) :=
  ("do", some (.str verb.word)) :: s.fields

theorem nodup_allFields (verb : Verb) (s : Step Float) :
    ((s.allFields verb).map Prod.fst).Nodup := by
  cases s with
  | create id color shape => cases shape <;> simp [allFields, fields, Shape.fields]
  | reveal | hide | fadeIn | fadeOut | highlight | pulse | animatePoint | fold | wait | unread =>
      simp [allFields, fields]

theorem demand_text {verb : Verb} {s : Step Float} {name text : String}
    (h : (s.allFields verb).lookup name = some (some (.str text))) :
    Record.demand (written (s.allFields verb)) name wantText = .read text :=
  Record.demand_written (s.nodup_allFields verb) h rfl

theorem demand_texts {verb : Verb} {s : Step Float} {name : String} {texts : List String}
    (h : (s.allFields verb).lookup name = some (some (.ofTexts texts))) :
    Record.demand (written (s.allFields verb)) name wantTexts = .read texts :=
  Record.demand_written (s.nodup_allFields verb) h (wantTexts_ofTexts texts)

theorem demand_number {verb : Verb} {s : Step Float} {name : String} {x : Float}
    (h : (s.allFields verb).lookup name = some (some (.ofFloat x)))
    (hx : Scalar.isFinite x = true) :
    Record.demand (written (s.allFields verb)) name wantNumber = .read x :=
  Record.demand_written (s.nodup_allFields verb) h (wantNumber_ofFloat hx)

theorem allow_text {verb : Verb} {s : Step Float} {name : String} {text : Option String}
    (h : (s.allFields verb).lookup name = some (text.map .str)) :
    Record.allow (written (s.allFields verb)) name wantText = .read text := by
  refine Record.allow_written (s.nodup_allFields verb) h fun x _ => ⟨rfl, ?_⟩
  exact fun heq => by cases heq

theorem allow_number {verb : Verb} {s : Step Float} {name : String} {x : Option Float}
    (h : (s.allFields verb).lookup name = some (x.map .ofFloat))
    (hx : ∀ y ∈ x.toList, Scalar.isFinite y = true) :
    Record.allow (written (s.allFields verb)) name wantNumber = .read x := by
  refine Record.allow_written (s.nodup_allFields verb) h fun y hy => ?_
  have hfinite := hx y (Option.mem_toList.mpr hy)
  exact ⟨wantNumber_ofFloat hfinite, ofFloat_ne_null hfinite⟩

theorem allow_style {verb : Verb} {s : Step Float} {name : String} {style : Option LineStyle}
    (h : (s.allFields verb).lookup name = some (style.map fun style => .str style.name)) :
    Record.allow (written (s.allFields verb)) name LineStyle.want = .read style := by
  refine Record.allow_written (s.nodup_allFields verb) h fun style _ => ⟨?_, ?_⟩
  · cases style <;> rfl
  · exact fun heq => by cases heq

/-- A step that is written with a verb is read by the fields of the verb. -/
theorem ofJson_of_allFields (verb : Verb) {s : Step Float}
    (hjson : s.toJson = .ofFields (s.allFields verb))
    (h : ∀ members, Action.ofRecord verb members (written (s.allFields verb)) =
      .read (.step s)) :
    Action.ofJson s.toJson = .step s := by
  rw [hjson]
  change Action.ofJson (.obj (written (s.allFields verb))) = .step s
  rw [Action.ofJson, Action.ofObject]
  have hdo : ((Json.obj (written (s.allFields verb))).field? "do").bind Json.text? =
      some verb.word := rfl
  simp only [hdo, Verb.ofWord?_word, h]

/-- A step that can be stored is read back. -/
theorem ofJson_toJson {s : Step Float} (h : s.IsStorable) : Action.ofJson s.toJson = .step s := by
  have hfinite := h.isFinite
  cases s with
  | unread u => exact h.unreadable u rfl
  | reveal target =>
      refine ofJson_of_allFields .reveal rfl fun members => ?_
      rw [Action.ofRecord, demand_text rfl]
      rfl
  | hide target =>
      refine ofJson_of_allFields .hide rfl fun members => ?_
      rw [Action.ofRecord, demand_text rfl]
      rfl
  | fadeIn target duration =>
      refine ofJson_of_allFields .fadeIn rfl fun members => ?_
      rw [Action.ofRecord, demand_text rfl, allow_number rfl hfinite]
      rfl
  | fadeOut target duration =>
      refine ofJson_of_allFields .fadeOut rfl fun members => ?_
      rw [Action.ofRecord, demand_text rfl, allow_number rfl hfinite]
      rfl
  | highlight target color =>
      refine ofJson_of_allFields .highlight rfl fun members => ?_
      rw [Action.ofRecord, demand_text rfl, allow_text rfl]
      rfl
  | pulse target color times =>
      refine ofJson_of_allFields .pulse rfl fun members => ?_
      rw [Action.ofRecord, demand_text rfl, allow_text rfl, allow_number rfl hfinite]
      rfl
  | create id color shape =>
      cases shape with
      | line start finish style =>
          refine ofJson_of_allFields .drawLine rfl fun members => ?_
          have hid : Record.allow (written ((create id color (.line start finish style)).allFields
              .drawLine)) "id" wantText = .read id := allow_text rfl
          have hcolor : Record.allow (written ((create id color (.line start finish
              style)).allFields .drawLine)) "color" wantText = .read color := allow_text rfl
          rw [Action.ofRecord, hid, demand_text rfl, demand_text rfl, allow_style rfl, hcolor]
          rfl
      | path start finish =>
          refine ofJson_of_allFields .showPath rfl fun members => ?_
          rw [Action.ofRecord, allow_text rfl, demand_text rfl, demand_text rfl, allow_text rfl]
          rfl
      | plane points opacity =>
          refine ofJson_of_allFields .showPlane rfl fun members => ?_
          rw [Action.ofRecord, allow_text rfl, demand_texts rfl, allow_text rfl,
            allow_number rfl hfinite]
          rfl
      | tetrahedron vertices opacity =>
          refine ofJson_of_allFields .showTetrahedron rfl fun members => ?_
          rw [Action.ofRecord, allow_text rfl, demand_texts rfl, allow_text rfl,
            allow_number rfl hfinite]
          rfl
  | animatePoint target start finish duration =>
      obtain ⟨hstart, hrest⟩ := List.forall_mem_cons.mp hfinite
      obtain ⟨hfinish, hduration⟩ := List.forall_mem_cons.mp hrest
      refine ofJson_of_allFields .animatePoint rfl fun members => ?_
      rw [Action.ofRecord, demand_text rfl, demand_number rfl hstart, demand_number rfl hfinish,
        allow_number rfl hduration]
      rfl
  | fold id start finish duration =>
      obtain ⟨hangles, hduration⟩ := List.forall_mem_append.mp hfinite
      obtain ⟨hstart, hfinish⟩ := List.forall_mem_append.mp hangles
      refine ofJson_of_allFields .fold rfl fun members => ?_
      rw [Action.ofRecord, demand_text rfl, allow_number rfl hstart, allow_number rfl hfinish,
        allow_number rfl hduration]
      rfl
  | wait duration =>
      refine ofJson_of_allFields .wait rfl fun members => ?_
      have hduration : Scalar.isFinite duration = true := hfinite duration List.mem_cons_self
      rw [Action.ofRecord, Record.allowDefault_written (nodup_allFields _ _) rfl
        (wantNumber_ofFloat hduration)]
      rfl

end Step

/-! ## Cameras -/

namespace Camera

theorem isFinite_of_spherical {j : Json} {position : Spherical Float}
    (h : Spherical.ofJson? j = some position) :
    ∀ x ∈ [position.radius, position.theta, position.phi], Scalar.isFinite x = true := by
  simp only [Spherical.ofJson?, Option.bind_eq_bind, Option.bind_eq_some_iff, Record.required]
    at h
  obtain ⟨r, -, radius, ⟨_, -, hradius⟩, theta, ⟨_, -, htheta⟩, phi, ⟨_, -, hphi⟩, h⟩ := h
  cases h
  simp only [List.mem_cons, List.not_mem_nil, or_false]
  rintro x (rfl | rfl | rfl)
  · exact isFinite_of_number? hradius
  · exact isFinite_of_number? htheta
  · exact isFinite_of_number? hphi

/-- What is kept unread is the very value that was to be read. -/
theorem raw_eq_of_ofJson {j raw : Json} (h : ofJson j = .unread raw) : raw = j := by
  unfold ofJson at h
  split at h
  next => cases h
  next =>
    split at h
    next => cases h
    next =>
      cases h
      rfl

theorem isStorable_ofJson (j : Json) : (ofJson j).IsStorable := by
  have hself : ∀ raw, ofJson j = .unread raw → ofJson raw = .unread raw := by
    intro raw h
    obtain rfl := raw_eq_of_ofJson h
    exact h
  refine ⟨?_, hself⟩
  unfold ofJson
  split
  next => exact fun x hx => absurd hx List.not_mem_nil
  next =>
    split
    next shot hshot =>
      simp only [Shot.ofJson?, Option.bind_eq_bind, Option.bind_eq_some_iff, Record.required]
        at hshot
      obtain ⟨r, -, position, ⟨value, -, hposition⟩, lookAt, -, transition, -, hshot⟩ := hshot
      cases hshot
      exact isFinite_of_spherical hposition
    next => exact fun x hx => absurd hx List.not_mem_nil

theorem spherical_ofJson?_toJson {position : Spherical Float}
    (h : ∀ x ∈ [position.radius, position.theta, position.phi], Scalar.isFinite x = true) :
    Spherical.ofJson? position.toJson = some position := by
  have hradius := number?_ofFloat (h position.radius (by simp))
  have htheta := number?_ofFloat (h position.theta (by simp))
  have hphi := number?_ofFloat (h position.phi (by simp))
  change ((ofFloat position.radius).number?.bind fun radius =>
    (ofFloat position.theta).number?.bind fun theta =>
      (ofFloat position.phi).number?.bind fun phi =>
        some (⟨radius, theta, phi⟩ : Spherical Float)) = some position
  rw [hradius, htheta, hphi]
  rfl

/-- A camera that can be stored is read back. -/
theorem ofJson_toJson {c : Camera Float} (h : c.IsStorable) : ofJson c.toJson = c := by
  cases c with
  | preset name => rfl
  | unread raw => exact h.unreadable raw rfl
  | full shot =>
      have hposition := spherical_ofJson?_toJson h.isFinite
      have hshot : Shot.ofJson? shot.toJson = some shot := by
        change ((Spherical.ofJson? shot.position.toJson).bind fun position =>
          some (⟨position, shot.lookAt, Transition.ofName shot.transition.name⟩ : Shot Float)) =
            some shot
        rw [hposition]
        obtain ⟨position, lookAt, transition⟩ := shot
        cases transition <;> rfl
      change ofJson shot.toJson = .full shot
      unfold ofJson
      split
      next name hname => cases hname
      next => rw [hshot]

end Camera

end Storyboard
