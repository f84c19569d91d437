import Storyboard.Proofs.Script.RoundTrip
import Storyboard.Review.Actions

/-!
# The grammar of actions

Which fields each verb asks for, and of which type they are, as a table.  A value is read
as an action of a verb exactly if it names the verb and keeps to the table; what is wrong
inside a group is the concern of its members.  Any other value is kept as it came,
together with what is wrong about its verb.

The review looks once more at the fields of a creating action that could not be read.
The field that it blames is the first required one of the table that is missing or of
another type.
-/

namespace Storyboard

open Json

/-! ## The table -/

/-- What the value of a field has to be. -/
inductive FieldType where
  | text
  /-- A number within the doubles. -/
  | number
  | texts
  /-- A text, or an object whose one field is `null` or an empty object. -/
  | word
  /-- A list of values of any kind. -/
  | actions
  deriving DecidableEq

/-- Whether a value is of a type. -/
def FieldType.fits : FieldType → Json → Bool
  | .text, .str _ => true
  | .number, .int n => Scalar.isFinite (Float.ofInt n)
  | .number, .float x => Scalar.isFinite x
  | .texts, .arr items => items.all fun item => match item with | .str _ => true | _ => false
  | .word, .str _ => true
  | .word, .obj [(_, value)] => match value with | .null | .obj [] => true | _ => false
  | .actions, .arr _ => true
  | _, _ => false

/-- Whether a field has to be there. -/
inductive Presence where
  | required
  /-- It may be absent or `null`. -/
  | optional
  /-- It may be absent, but not `null`. -/
  | defaulted
  deriving DecidableEq

/-- What a verb asks of a field. -/
structure FieldRule where
  presence : Presence
  name : String
  type : FieldType
  deriving DecidableEq

namespace FieldRule

/-- Whether a field may have a value, or none at all. -/
def admits (rule : FieldRule) : Option Json → Bool
  | none => rule.presence ≠ .required
  | some .null => rule.presence = .optional
  | some value => rule.type.fits value

/-- Whether the fields of a value keep to a rule. -/
def isKept (rule : FieldRule) (j : Json) : Bool := rule.admits (j.field? rule.name)

end FieldRule

namespace Verb

/-- What each verb asks of its fields, in their declared order. -/
def grammar : Verb → List FieldRule
  | reveal | hide => [⟨.required, "target", .text⟩]
  | fadeIn | fadeOut => [⟨.required, "target", .text⟩, ⟨.optional, "duration", .number⟩]
  | highlight => [⟨.required, "target", .text⟩, ⟨.optional, "color", .text⟩]
  | pulse =>
    [⟨.required, "target", .text⟩, ⟨.optional, "color", .text⟩, ⟨.optional, "times", .number⟩]
  | drawLine =>
    [⟨.optional, "id", .text⟩, ⟨.required, "from", .text⟩, ⟨.required, "to", .text⟩,
      ⟨.optional, "style", .word⟩, ⟨.optional, "color", .text⟩]
  | showPath =>
    [⟨.optional, "id", .text⟩, ⟨.required, "from", .text⟩, ⟨.required, "to", .text⟩,
      ⟨.optional, "color", .text⟩]
  | showPlane =>
    [⟨.optional, "id", .text⟩, ⟨.required, "points", .texts⟩, ⟨.optional, "color", .text⟩,
      ⟨.optional, "opacity", .number⟩]
  | showTetrahedron =>
    [⟨.optional, "id", .text⟩, ⟨.required, "vertices", .texts⟩, ⟨.optional, "color", .text⟩,
      ⟨.optional, "opacity", .number⟩]
  | animatePoint =>
    [⟨.required, "target", .text⟩, ⟨.required, "from", .number⟩, ⟨.required, "to", .number⟩,
      ⟨.optional, "duration", .number⟩]
  | fold =>
    [⟨.required, "foldId", .text⟩, ⟨.optional, "fromAngle", .number⟩,
      ⟨.optional, "toAngle", .number⟩, ⟨.optional, "duration", .number⟩]
  | together => [⟨.required, "actions", .actions⟩]
  | wait => [⟨.defaulted, "duration", .number⟩]

/-- A value that names a verb and has the fields for it. -/
def Allows (verb : Verb) (j : Json) : Prop :=
  j.field? "do" = some (.str verb.word) ∧ ∀ rule ∈ verb.grammar, rule.isKept j = true

/-- The first field that a verb requires and that is missing or of another type. -/
def firstBroken? (verb : Verb) (j : Json) : Option String :=
  (verb.grammar.find? fun rule => rule.presence = .required && !rule.isKept j).map
    FieldRule.name

end Verb

/-- What is wrong about the verb of a value. -/
def Misreading.IsOf (j : Json) : Misreading → Prop
  | noVerb => ∀ word, j.field? "do" ≠ some (.str word)
  | unknownVerb word => j.field? "do" = some (.str word) ∧ ∀ verb : Verb, verb.word ≠ word
  | malformed verb _ => j.field? "do" = some (.str verb.word)

/-- The verb of an action that could be read. -/
def Action.verb? {α : Type} : Action α → Option Verb
  | step s => s.verb?
  | together _ => some .together

/-! ## Fields one by one -/

theorem isOk_mapM {β γ ε : Type} (f : β → Except ε γ) (items : List β) :
    (items.mapM f).isOk = items.all fun item => (f item).isOk := by
  induction items with
  | nil => rfl
  | cons item rest ih =>
      rw [List.mapM_cons, List.all_cons, ← ih]
      cases f item with
      | error e => rfl
      | ok c => cases rest.mapM f <;> rfl

theorem isSome_mapM {β γ : Type} (f : β → Option γ) (items : List β) :
    (items.mapM f).isSome = items.all fun item => (f item).isSome := by
  induction items with
  | nil => rfl
  | cons item rest ih =>
      rw [List.mapM_cons, List.all_cons, ← ih]
      cases f item with
      | none => rfl
      | some c => cases rest.mapM f <;> rfl

namespace FieldType

theorem fits_null (type : FieldType) : type.fits .null = false := by
  cases type <;> rfl

theorem isOk_wantText (j : Json) : j.wantText.isOk = text.fits j := by
  cases j <;> rfl

theorem isOk_wantNumber (j : Json) : j.wantNumber.isOk = number.fits j := by
  have hfinite : ∀ x : Float, (finite? x).isSome = Scalar.isFinite x := by
    intro x
    unfold finite?
    split_ifs with h
    · exact h.symm
    · exact (Bool.eq_false_iff.mpr h).symm
  have hwant : j.wantNumber.isOk = j.number?.isSome := by
    unfold wantNumber
    cases j.number? <;> rfl
  rw [hwant]
  cases j with
  | int n => exact hfinite _
  | float x => exact hfinite x
  | null | bool | str | arr | obj => rfl

theorem fits_texts (items : List Json) : texts.fits (.arr items) = items.all text.fits := by
  refine congrArg items.all (funext fun item => ?_)
  cases item <;> rfl

theorem isOk_wantTexts (j : Json) : j.wantTexts.isOk = texts.fits j := by
  cases j with
  | arr items =>
      rw [fits_texts, ← funext isOk_wantText]
      exact isOk_mapM wantText items
  | null | bool | int | float | str | obj => rfl

theorem isOk_wantStyle (j : Json) : (LineStyle.want j).isOk = word.fits j := by
  have hword : (LineStyle.want j).isOk = j.wantWord.isOk := by
    unfold LineStyle.want
    cases j.wantWord <;> rfl
  rw [hword]
  rcases j with _ | _ | _ | _ | _ | _ | fields
  case obj =>
    rcases fields with _ | ⟨⟨name, value⟩, _ | ⟨other, rest⟩⟩
    · rfl
    · rcases value with _ | _ | _ | _ | _ | _ | inner
      case obj => cases inner <;> rfl
      all_goals rfl
    · rfl
  all_goals rfl

end FieldType

namespace Json

/-- Whether something has been read. -/
def Reading.isRead {β : Type} : Reading β → Bool
  | .read _ => true
  | .refused _ => false

namespace Reading

variable {β γ : Type}

@[simp] theorem isRead_seq (f : Reading (β → γ)) (x : Reading β) :
    (f <*> x).isRead = (f.isRead && x.isRead) := by
  cases f <;> cases x <;> rfl

@[simp] theorem isRead_map (g : β → γ) (x : Reading β) : (g <$> x).isRead = x.isRead := by
  cases x <;> rfl

end Reading

namespace Record

variable {β : Type} {want : Json → Except String β} {type : FieldType}

theorem isRead_readField (hwant : ∀ j, (want j).isOk = type.fits j) (name : String) (j : Json) :
    (readField name want j).isRead = type.fits j := by
  rw [← hwant, readField]
  cases want j <;> rfl

theorem isRead_demand (hwant : ∀ j, (want j).isOk = type.fits j) (r : Record) (name : String) :
    (r.demand name want).isRead = FieldRule.isKept ⟨.required, name, type⟩ (.obj r) := by
  change _ = FieldRule.admits _ (r.lookup name)
  unfold demand
  cases r.lookup name with
  | none => rfl
  | some j =>
      dsimp only
      rw [isRead_readField hwant]
      cases j with
      | null => exact type.fits_null
      | bool | int | float | str | arr | obj => rfl

theorem isRead_allow (hwant : ∀ j, (want j).isOk = type.fits j) (r : Record) (name : String) :
    (r.allow name want).isRead = FieldRule.isKept ⟨.optional, name, type⟩ (.obj r) := by
  change _ = FieldRule.admits _ (r.lookup name)
  unfold allow
  cases r.lookup name with
  | none => rfl
  | some j =>
      cases j with
      | null => rfl
      | bool | int | float | str | arr | obj =>
          dsimp only
          rw [Reading.isRead_map, isRead_readField hwant]
          rfl

theorem isRead_allowDefault (hwant : ∀ j, (want j).isOk = type.fits j) (r : Record)
    (name : String) (default : β) :
    (r.allowDefault name default want).isRead =
      FieldRule.isKept ⟨.defaulted, name, type⟩ (.obj r) := by
  change _ = FieldRule.admits _ (r.lookup name)
  unfold allowDefault
  cases r.lookup name with
  | none => rfl
  | some j =>
      dsimp only
      rw [isRead_readField hwant]
      cases j with
      | null => exact type.fits_null
      | bool | int | float | str | arr | obj => rfl

end Record

end Json

/-! ## All fields of a verb -/

namespace Action

theorem members_eq (fields : List (String × Json)) :
    members fields = (Json.obj fields).members?.map ofItems := by
  induction fields with
  | nil => rfl
  | cons f rest ih =>
      rw [members_cons, members?_cons, ih]
      split_ifs <;> rfl

theorem isRead_group (fields : List (String × Json)) :
    (group fields (members fields)).isRead =
      FieldRule.isKept ⟨.required, "actions", .actions⟩ (.obj fields) := by
  have hmembers : members fields = ((fields.lookup "actions").bind items?).map ofItems :=
    members_eq fields
  change _ = FieldRule.admits _ (fields.lookup "actions")
  rw [group, Reading.isRead_map, hmembers, Record.demand]
  cases fields.lookup "actions" with
  | none => rfl
  | some j => cases j <;> rfl

/-- The fields of a verb can be read exactly if they keep to the table. -/
theorem isRead_ofRecord (verb : Verb) (fields : List (String × Json)) :
    (ofRecord verb (members fields) fields).isRead =
      verb.grammar.all fun rule => rule.isKept (.obj fields) := by
  have htext := FieldType.isOk_wantText
  have hnumber := FieldType.isOk_wantNumber
  have htexts := FieldType.isOk_wantTexts
  cases verb <;>
    simp only [ofRecord, Verb.grammar, isRead_group, Reading.isRead_seq, Reading.isRead_map,
      Record.isRead_demand htext, Record.isRead_demand hnumber, Record.isRead_demand htexts,
      Record.isRead_allow htext, Record.isRead_allow hnumber,
      Record.isRead_allow FieldType.isOk_wantStyle, Record.isRead_allowDefault hnumber,
      List.all_cons, List.all_nil, Bool.and_true, Bool.and_assoc]

theorem verb?_of_ofRecord {verb : Verb} {members : Option (List (Action Float))} {r : Record}
    {a : Action Float} (h : ofRecord verb members r = .read a) : a.verb? = some verb := by
  rcases ofRecord_cases h with ⟨s, rfl, hs, -⟩ | ⟨actions, rfl, -, rfl⟩
  · exact hs
  · rfl

end Action

/-! ## Whole actions -/

namespace Verb

theorem ofWord?_eq_some_iff {word : String} {verb : Verb} :
    ofWord? word = some verb ↔ verb.word = word := by
  constructor
  · intro h
    simpa using List.find?_some h
  · rintro rfl
    exact ofWord?_word verb

theorem ofWord?_eq_none_iff {word : String} :
    ofWord? word = none ↔ ∀ verb : Verb, verb.word ≠ word := by
  rw [Option.eq_none_iff_forall_ne_some]
  exact forall_congr' fun verb => not_congr ofWord?_eq_some_iff

end Verb

namespace Action

variable {j : Json}

theorem exists_obj_of_field? {name : String} {value : Json} (h : j.field? name = some value) :
    ∃ fields, j = .obj fields := by
  cases j with
  | obj fields => exact ⟨fields, rfl⟩
  | null | bool | int | float | str | arr => cases h

theorem ofJson_of_noVerb (h : ∀ word, j.field? "do" ≠ some (.str word)) :
    ofJson j = unreadable j .noVerb := by
  cases j with
  | null | bool | int | float | str | arr => rfl
  | obj fields =>
      have hnone : ((Json.obj fields).field? "do").bind Json.text? = none := by
        cases hdo : (Json.obj fields).field? "do" with
        | none => rfl
        | some value =>
            cases value with
            | str word => exact absurd hdo (h word)
            | null | bool | int | float | arr | obj => rfl
      rw [ofJson, ofObject]
      simp only [hnone]

theorem ofJson_of_unknownVerb {word : String} (h : j.field? "do" = some (.str word))
    (hword : ∀ verb : Verb, verb.word ≠ word) :
    ofJson j = unreadable j (.unknownVerb word) := by
  obtain ⟨fields, rfl⟩ := exists_obj_of_field? h
  have htext : ((Json.obj fields).field? "do").bind Json.text? = some word := by
    rw [h]
    rfl
  rw [ofJson, ofObject]
  simp only [htext, Verb.ofWord?_eq_none_iff.mpr hword]

/-- With a known verb it depends on the fields alone whether a value can be read. -/
theorem ofJson_of_verb {verb : Verb} (h : j.field? "do" = some (.str verb.word)) :
    ((∀ rule ∈ verb.grammar, rule.isKept j = true) ∧ (ofJson j).verb? = some verb) ∨
      (∃ rule ∈ verb.grammar, rule.isKept j = false) ∧
        ∃ detail, ofJson j = unreadable j (.malformed verb detail) := by
  obtain ⟨fields, rfl⟩ := exists_obj_of_field? h
  have htext : ((Json.obj fields).field? "do").bind Json.text? = some verb.word := by
    rw [h]
    rfl
  have hread := isRead_ofRecord verb fields
  rw [ofJson, ofObject]
  simp only [htext, Verb.ofWord?_word]
  cases hrecord : ofRecord verb (members fields) fields with
  | read a =>
      rw [hrecord] at hread
      exact Or.inl ⟨List.all_eq_true.mp hread.symm, verb?_of_ofRecord hrecord⟩
  | refused complaint =>
      rw [hrecord] at hread
      obtain ⟨rule, hrule, hbroken⟩ := List.all_eq_false.mp hread.symm
      exact Or.inr ⟨⟨rule, hrule, Bool.eq_false_iff.mpr hbroken⟩, _, rfl⟩

/-- A value has no verb, an unknown one, or a known one. -/
theorem verb_cases (j : Json) :
    (∀ word, j.field? "do" ≠ some (.str word)) ∨
      (∃ word, j.field? "do" = some (.str word) ∧ ∀ verb : Verb, verb.word ≠ word) ∨
      ∃ verb : Verb, j.field? "do" = some (.str verb.word) := by
  by_cases hdo : ∃ word, j.field? "do" = some (.str word)
  · obtain ⟨word, hword⟩ := hdo
    refine Or.inr ?_
    by_cases hverb : ∃ verb : Verb, verb.word = word
    · obtain ⟨verb, rfl⟩ := hverb
      exact Or.inr ⟨verb, hword⟩
    · exact Or.inl ⟨word, hword, not_exists.mp hverb⟩
  · exact Or.inl (not_exists.mp hdo)

/-- A value is read as an action of a verb exactly if the verb allows it. -/
theorem verb?_ofJson_iff {verb : Verb} : (ofJson j).verb? = some verb ↔ verb.Allows j := by
  constructor
  · intro h
    rcases verb_cases j with hnone | ⟨word, hword, hunknown⟩ | ⟨verb', hverb'⟩
    · rw [ofJson_of_noVerb hnone] at h
      cases h
    · rw [ofJson_of_unknownVerb hword hunknown] at h
      cases h
    · rcases ofJson_of_verb hverb' with ⟨hkept, hread⟩ | ⟨-, detail, hread⟩
      · obtain rfl := Option.some_inj.mp (hread.symm.trans h)
        exact ⟨hverb', hkept⟩
      · rw [hread] at h
        cases h
  · rintro ⟨hverb, hkept⟩
    rcases ofJson_of_verb hverb with ⟨-, hread⟩ | ⟨⟨rule, hrule, hbroken⟩, -⟩
    · exact hread
    · rw [hkept rule hrule] at hbroken
      cases hbroken

/-- A value that no verb allows is kept, with what is wrong about its verb. -/
theorem ofJson_of_not_allows (h : ∀ verb : Verb, ¬ verb.Allows j) :
    ∃ reason : Misreading, ofJson j = unreadable j reason ∧ reason.IsOf j := by
  rcases verb_cases j with hnone | ⟨word, hword, hunknown⟩ | ⟨verb, hverb⟩
  · exact ⟨_, ofJson_of_noVerb hnone, hnone⟩
  · exact ⟨_, ofJson_of_unknownVerb hword hunknown, hword, hunknown⟩
  · rcases ofJson_of_verb hverb with ⟨-, hread⟩ | ⟨-, detail, hread⟩
    · exact absurd (verb?_ofJson_iff.mp hread) (h verb)
    · exact ⟨_, hread, hverb⟩

theorem exists_broken_of_malformed {u : Unread} {verb : Verb} {detail : String}
    (h : ofJson j = .step (.unread u)) (hreason : u.reason = .malformed verb detail) :
    ∃ rule ∈ verb.grammar, rule.isKept j = false := by
  rcases verb_cases j with hnone | ⟨word, hword, hunknown⟩ | ⟨verb', hverb'⟩
  · rw [ofJson_of_noVerb hnone] at h
    cases h
    cases hreason
  · rw [ofJson_of_unknownVerb hword hunknown] at h
    cases h
    cases hreason
  · rcases ofJson_of_verb hverb' with ⟨-, hread⟩ | ⟨hbroken, detail', hread⟩
    · rw [h] at hread
      cases hread
    · rw [hread] at h
      cases h
      cases hreason
      exact hbroken

theorem ofItems_eq (items : List Json) : ofItems items = items.map ofJson := by
  induction items with
  | nil => rfl
  | cons j rest ih => rw [ofItems, ih, List.map_cons]

/-- The members of a group are read whatever they are. -/
theorem ofJson_of_together (h : Verb.together.Allows j) :
    ∃ items, j.field? "actions" = some (.arr items) ∧ ofJson j = .together (items.map ofJson) := by
  obtain ⟨hverb, hkept⟩ := h
  obtain ⟨fields, rfl⟩ := exists_obj_of_field? hverb
  obtain ⟨items, hitems⟩ : ∃ items, fields.lookup "actions" = some (.arr items) := by
    have hactions : FieldRule.admits ⟨.required, "actions", .actions⟩ (fields.lookup "actions") =
        true := hkept _ List.mem_cons_self
    cases hfield : fields.lookup "actions" with
    | none =>
        rw [hfield] at hactions
        cases hactions
    | some value =>
        rw [hfield] at hactions
        cases value with
        | arr items => exact ⟨items, rfl⟩
        | null | bool | int | float | str | obj => cases hactions
  have hmembers : members fields = some (items.map ofJson) := by
    rw [members_eq, members?, field?, hitems, ← ofItems_eq]
    rfl
  have htext : ((Json.obj fields).field? "do").bind Json.text? = some Verb.together.word := by
    rw [hverb]
    rfl
  refine ⟨items, hitems, ?_⟩
  rw [ofJson, ofObject]
  simp only [htext, Verb.ofWord?_word, ofRecord, group, Record.demand, hitems, hmembers]
  rfl

end Action

/-! ## The field that is blamed -/

namespace Unread

theorem isKept_text (u : Unread) (name : String) :
    FieldRule.isKept ⟨.required, name, .text⟩ u.raw = (u.text? name).isSome := by
  rw [FieldRule.isKept, text?]
  cases u.raw.field? name with
  | none => rfl
  | some value => cases value <;> rfl

theorem isKept_texts (u : Unread) (name : String) :
    FieldRule.isKept ⟨.required, name, .texts⟩ u.raw = u.isTexts name := by
  rw [FieldRule.isKept, isTexts]
  cases u.raw.field? name with
  | none => rfl
  | some value =>
      cases value with
      | arr items =>
          have htext : (fun item : Json => (Json.text? item).isSome) = FieldType.text.fits := by
            funext item
            cases item <;> rfl
          change FieldType.texts.fits (.arr items) = (items.mapM Json.text?).isSome
          rw [FieldType.fits_texts, isSome_mapM, htext]
      | null | bool | int | float | str | obj => rfl

/-- The field that is blamed for a creating action is the first required one that is broken. -/
theorem brokenField?_eq (u : Unread) {verb : Verb} (h : verb.createsElement = true) :
    u.brokenField? verb = verb.firstBroken? u.raw := by
  cases verb with
  | drawLine | showPath =>
      simp only [brokenField?, Verb.firstBroken?, Verb.grammar, List.find?_cons, List.find?_nil,
        isKept_text, Option.not_isSome, reduceCtorEq, decide_false, decide_true, Bool.false_and,
        Bool.true_and]
      cases (u.text? "from").isNone <;> cases (u.text? "to").isNone <;> rfl
  | showPlane | showTetrahedron =>
      simp only [brokenField?, Verb.firstBroken?, Verb.grammar, List.find?_cons, List.find?_nil,
        isKept_texts, reduceCtorEq, decide_false, decide_true, Bool.false_and, Bool.true_and]
      cases u.isTexts _ <;> rfl
  | reveal | hide | fadeIn | fadeOut | highlight | pulse | animatePoint | fold | together |
      wait => cases h

theorem path_defect (u : Unread) {verb : Verb} {detail : String}
    (hreason : u.reason = .malformed verb detail) (h : verb.createsElement = true)
    (place : Place) :
    (u.defect place).path = ((u.brokenField? verb).map place.field).getD place.path := by
  have htarget : verb.hasTarget = false := by cases verb <;> first | rfl | cases h
  unfold defect
  rw [hreason]
  dsimp only
  rw [if_neg (Bool.eq_false_iff.mp htarget), if_pos h]
  cases u.brokenField? verb <;> rfl

end Unread

theorem Verb.firstBroken?_eq_none_iff {verb : Verb} {j : Json} :
    verb.firstBroken? j = none ↔
      ∀ rule ∈ verb.grammar, rule.presence = .required → rule.isKept j = true := by
  rw [firstBroken?, Option.map_eq_none_iff, List.find?_eq_none]
  simp

/-- No field of a creating verb has a default. -/
theorem Verb.presence_of_createsElement {verb : Verb} (h : verb.createsElement = true) :
    ∀ rule ∈ verb.grammar, rule.presence = .required ∨ rule.presence = .optional := by
  cases verb <;> first | decide | cases h

namespace Action

/--
A value is read as an action of a verb exactly if it names the verb and all the fields of
the verb are there and fit, whatever the members of a group are.  Any other value is kept
as it came, with what is wrong about its verb.  For a creating action that could not be
read the review blames the first required field that is missing or does not fit, and no
field exactly if those are all there and one that may be absent does not fit.
-/
theorem ofJson_follows_grammar (j : Json) :
    (∀ verb, (ofJson j).verb? = some verb ↔ verb.Allows j) ∧
    (Verb.together.Allows j → ∃ items, j.field? "actions" = some (.arr items) ∧
      ofJson j = .together (items.map ofJson)) ∧
    ((∀ verb : Verb, ¬ verb.Allows j) →
      ∃ reason : Misreading, ofJson j = .step (.unread ⟨j, reason⟩) ∧ reason.IsOf j) ∧
    ∀ (u : Unread) (verb : Verb) (detail : String), ofJson j = .step (.unread u) →
      u.reason = .malformed verb detail → verb.createsElement = true →
      u.brokenField? verb = verb.firstBroken? j ∧
      (u.brokenField? verb = none ↔
        (∀ rule ∈ verb.grammar, rule.presence = .required → rule.isKept j = true) ∧
        ∃ rule ∈ verb.grammar, rule.presence = .optional ∧ rule.isKept j = false) ∧
      ∀ place, (u.defect place).path =
        ((verb.firstBroken? j).map place.field).getD place.path := by
  refine ⟨fun verb => verb?_ofJson_iff, ofJson_of_together, ofJson_of_not_allows, ?_⟩
  intro u verb detail hread hreason hcreates
  have hfirst : u.brokenField? verb = verb.firstBroken? j := by
    rw [u.brokenField?_eq hcreates, raw_eq_of_ofJson hread]
  obtain ⟨rule, hrule, hbroken⟩ := exists_broken_of_malformed hread hreason
  refine ⟨hfirst, ?_, fun place => by rw [u.path_defect hreason hcreates, hfirst]⟩
  rw [hfirst, Verb.firstBroken?_eq_none_iff]
  constructor
  · intro hkept
    refine ⟨hkept, rule, hrule, ?_, hbroken⟩
    rcases Verb.presence_of_createsElement hcreates rule hrule with hrequired | hoptional
    · rw [hkept rule hrule hrequired] at hbroken
      cases hbroken
    · exact hoptional
  · exact And.left

/-- A line whose name is a number and whose end is a list. -/
def bentLine : Json :=
  .obj [("do", .str "drawLine"), ("from", .str "A"), ("id", .int 7), ("to", .arr [.str "B"])]

/-- A group of that line and a number. -/
def bentGroup : Json := .obj [("actions", .arr [bentLine, .int 7]), ("do", .str "together")]

theorem ofJson_follows_grammar_bent :
    (∃ u detail, ofJson bentLine = .step (.unread u) ∧ u.reason = .malformed .drawLine detail ∧
      Verb.drawLine.createsElement = true ∧ u.brokenField? .drawLine = some "to" ∧
      (u.defect ⟨"actions", [3]⟩).path = "actions[3].to") ∧
    Verb.together.Allows bentGroup ∧
      ofJson bentGroup = .together [ofJson bentLine, unreadable (.int 7) .noVerb] ∧
    (∀ verb : Verb, ¬ verb.Allows bentLine) ∧
      ∃ reason : Misreading, ofJson bentLine = .step (.unread ⟨bentLine, reason⟩) ∧
        reason.IsOf bentLine := by
  have hread : ofJson bentLine = unreadable bentLine
      (.malformed .drawLine "invalid type: integer `7`, expected a string") := rfl
  have hnone : ∀ verb : Verb, ¬ verb.Allows bentLine := by
    intro verb hallows
    have hverb := ((ofJson_follows_grammar bentLine).1 verb).mpr hallows
    rw [hread] at hverb
    cases hverb
  have hallows : Verb.together.Allows bentGroup := ⟨rfl, by decide⟩
  refine ⟨⟨_, _, hread, rfl, rfl, ?_, ?_⟩, hallows, ?_, hnone,
    (ofJson_follows_grammar bentLine).2.2.1 hnone⟩
  · exact ((ofJson_follows_grammar bentLine).2.2.2 _ _ _ hread rfl rfl).1.trans rfl
  · exact ((ofJson_follows_grammar bentLine).2.2.2 _ _ _ hread rfl rfl).2.2 _
  · obtain ⟨items, hitems, hgroup⟩ := (ofJson_follows_grammar bentGroup).2.1 hallows
    cases hitems
    exact hgroup

end Action

end Storyboard
