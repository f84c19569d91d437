import Storyboard.Proofs.Timeline.Gathering
import Storyboard.Proofs.Timeline.Playback

/-!
# The marks of a cue

A cue says twice what it does: by the stage it leaves and by the keyframes it
writes.  Both are read off two short lists, said without either: what the cue
*leaves* on each channel and from when on, and the number with which it *leads* on
a channel and when.

The stage goes by the order of the cues: of all that leave something on a channel
the last one counts.  The tracks go by time: there the latest one counts, and the
earliest lead is the first keyframe after those that set up the stage.
-/

namespace Storyboard

open Track

/-- The first item of a list that belongs to a channel. -/
def firstOn {β : Type} (c : Channel) (items : List (Channel × β)) : Option β :=
  (items.find? fun e => e.1 = c).map Prod.snd

@[simp] theorem firstOn_nil {β : Type} (c : Channel) :
    firstOn c ([] : List (Channel × β)) = none := rfl

@[simp] theorem firstOn_cons {β : Type} (c c' : Channel) (b : β)
    (rest : List (Channel × β)) :
    firstOn c ((c', b) :: rest) = if c' = c then some b else firstOn c rest := by
  by_cases h : c' = c <;> simp [firstOn, h]

/-- Whether there is an item on a channel depends on the channels alone. -/
theorem isSome_firstOn_congr {β γ : Type} {c : Channel} {items : List (Channel × β)}
    {items' : List (Channel × γ)} (h : items.map Prod.fst = items'.map Prod.fst) :
    (firstOn c items).isSome = (firstOn c items').isSome := by
  induction items generalizing items' with
  | nil =>
      rw [List.map_eq_nil_iff.mp h.symm]
      rfl
  | cons e rest ih =>
      cases items' with
      | nil => cases h
      | cons e' rest' =>
          obtain ⟨hhead, htail⟩ := List.cons.inj h
          rw [firstOn_cons, firstOn_cons, hhead]
          split_ifs
          · rfl
          · exact ih htail

theorem mem_of_firstOn {β : Type} {c : Channel} {items : List (Channel × β)} {b : β}
    (h : firstOn c items = some b) : (c, b) ∈ items := by
  obtain ⟨e, hfind, rfl⟩ := Option.map_eq_some_iff.mp h
  obtain rfl : e.1 = c := by simpa using List.find?_some hfind
  exact List.mem_of_find?_eq_some hfind

namespace Cue

variable {α : Type} [Scalar α]

/-- What a cue leaves on each of its channels, and from when on. -/
def leaves (cue : Cue α) : List (Channel × (α × KeyValue α)) :=
  match cue.effect with
  | .reveal target => [(⟨.visibility, target⟩, cue.finish, .bool true)]
  | .hide target => [(⟨.visibility, target⟩, cue.finish, .bool false)]
  | .fadeIn target =>
    [(⟨.visibility, target⟩, cue.start, .bool true),
      (⟨.opacity, target⟩, cue.finish, .number 1)]
  | .fadeOut target =>
    [(⟨.visibility, target⟩, cue.finish, .bool false),
      (⟨.opacity, target⟩, cue.finish, .number 0)]
  | .create element =>
    (⟨.visibility, element.id⟩, cue.finish, .bool true) ::
      element.form.opacity?.toList.map fun opacity =>
        (⟨.opacity, element.id⟩, cue.finish, .number opacity)
  | .drive parameter _ finish => [(⟨.parameter, parameter⟩, cue.finish, .number finish)]
  | .fold id _ finish => [(⟨.angle, id⟩, cue.finish, .number finish)]
  | .highlight .. | .pulse .. | .rest => []

/-- The number with which a cue leads on each of its channels, given the stage it finds. -/
def leads (stage : Stage α) (cue : Cue α) : List (Channel × (α × α)) :=
  match cue.effect with
  | .fadeIn target => [(⟨.opacity, target⟩, cue.start, 0)]
  | .fadeOut target =>
    [(⟨.opacity, target⟩, cue.start, (stage.opacities.get? target).getD 1)]
  | .create element =>
    element.form.opacity?.toList.map fun opacity =>
      (⟨.opacity, element.id⟩, cue.finish, opacity)
  | .drive parameter start _ => [(⟨.parameter, parameter⟩, cue.start, start)]
  | .fold id start _ => [(⟨.angle, id⟩, cue.start, start)]
  | .reveal _ | .hide _ | .highlight .. | .pulse .. | .rest => []

/-- What a cue leaves on a channel, and from when on. -/
def leaving? (cue : Cue α) (c : Channel) : Option (α × KeyValue α) :=
  firstOn c cue.leaves

/-- The number with which a cue leads on a channel, and when. -/
def lead? (stage : Stage α) (cue : Cue α) (c : Channel) : Option (α × α) :=
  firstOn c (cue.leads stage)

/-- A cue touches a channel when it leaves something there. -/
def touches (cue : Cue α) (c : Channel) : Bool := (cue.leaving? c).isSome

end Cue

/-- What some cues leave on a channel, in their order. -/
def leavings {α : Type} [Scalar α] (c : Channel) (cues : List (Cue α)) :
    List (α × KeyValue α) :=
  cues.filterMap fun cue => cue.leaving? c

/-- The numbers with which some cues lead on a channel, in their order. -/
def Stage.leadings {α : Type} [Scalar α] (stage : Stage α) (c : Channel) :
    List (Cue α) → List (α × α)
  | [] => []
  | cue :: rest => (cue.lead? stage c).toList ++ (stage.after cue.effect).leadings c rest

/-! ## One cue -/

/-- A value that belongs on a channel. -/
def Channel.Fits {α : Type} (c : Channel) (v : KeyValue α) : Prop :=
  match c.property with
  | .visibility => ∃ b, v = .bool b
  | .opacity | .parameter | .angle => ∃ x, v = .number x
  | .highlight => False

/-- A value that belongs on a channel is told from others by what the channel shows. -/
theorem Channel.update_injective {α : Type} {c : Channel} {v w : KeyValue α}
    (hv : c.Fits v) (hw : c.Fits w) (old : Option (KeyValue α)) :
    c.update old v = c.update old w ↔ v = w := by
  refine ⟨fun h => ?_, fun h => h ▸ rfl⟩
  obtain ⟨property, target⟩ := c
  cases property with
  | visibility =>
      obtain ⟨b, rfl⟩ := hv
      obtain ⟨b', rfl⟩ := hw
      cases b <;> cases b' <;> simp_all [update]
  | highlight => exact hv.elim
  | opacity | parameter | angle =>
      obtain ⟨x, rfl⟩ := hv
      obtain ⟨y, rfl⟩ := hw
      simpa [update] using h

namespace Cue

section Marks

variable {α : Type} [Scalar α]

/-- What a cue leaves belongs on its channel and stands there while the cue lasts. -/
theorem forall_mem_leaves (cue : Cue α) :
    ∀ e ∈ cue.leaves, e.1.Fits e.2.2 ∧ (e.2.1 = cue.start ∨ e.2.1 = cue.finish) := by
  unfold leaves
  split
  case h_5 element _ =>
      rintro e he
      rcases List.mem_cons.mp he with rfl | he
      · exact ⟨⟨_, rfl⟩, Or.inr rfl⟩
      · obtain ⟨opacity, -, rfl⟩ := List.mem_map.mp he
        exact ⟨⟨_, rfl⟩, Or.inr rfl⟩
  all_goals simp [Channel.Fits]

theorem fits_of_leaving? {cue : Cue α} {c : Channel} {mark : α × KeyValue α}
    (h : cue.leaving? c = some mark) : c.Fits mark.2 :=
  (cue.forall_mem_leaves _ (mem_of_firstOn h)).1

/-- The stage that a cue leaves holds what the cue leaves and is unchanged elsewhere. -/
theorem value?_after (stage : Stage α) (cue : Cue α) (c : Channel) :
    (stage.after cue.effect).value? c =
      match cue.leaving? c with
      | some mark => c.update none mark.2
      | none => stage.value? c := by
  obtain ⟨start, duration, effect⟩ := cue
  obtain ⟨property, target⟩ := c
  cases effect with
  | create element =>
      by_cases h : target = element.id
      · cases hopacity : element.form.opacity? <;> cases property <;>
          simp [leaving?, leaves, Stage.after, Stage.withVisible, Stage.withOpacity,
            Stage.value?, Channel.update, OrderedSet.add, OrderedMap.get?_insert, h,
            hopacity]
      · cases hopacity : element.form.opacity? <;> cases property <;>
          simp [leaving?, leaves, Stage.after, Stage.withVisible, Stage.withOpacity,
            Stage.value?, OrderedSet.add, OrderedMap.get?_insert, h, Ne.symm h,
            hopacity]
  | reveal other | hide other | fadeIn other | fadeOut other | highlight other _
  | pulse other _ _ | drive other _ _ | fold other _ _ =>
      by_cases h : target = other
      · cases property <;>
          simp [leaving?, leaves, Stage.after, Stage.withVisible, Stage.withoutVisible,
            Stage.withOpacity, Stage.value?, Channel.update, OrderedSet.add,
            OrderedMap.get?_insert, OrderedMap.get?_erase, h]
      · cases property <;>
          simp [leaving?, leaves, Stage.after, Stage.withVisible, Stage.withoutVisible,
            Stage.withOpacity, Stage.value?, OrderedSet.add,
            OrderedMap.get?_insert, OrderedMap.get?_erase, h, Ne.symm h]
  | rest => rfl

end Marks

section Keyframes

theorem keysOf_pulse {α : Type} {c : Channel} (hc : c.property ≠ .highlight) (target : String)
    (keys : List (Keyframe α)) :
    keysOf c (keys.map fun k => ((⟨.highlight, target⟩ : Channel), k)) = [] := by
  apply keysOf_eq_nil
  intro w hw heq
  obtain ⟨k, -, rfl⟩ := List.mem_map.mp hw
  exact hc (congrArg Channel.property heq).symm

variable {α : Type} [ExactScalar α]

/-- The keyframes that a cue writes to a channel, but for highlights, come in order of time. -/
theorem inOrder_keysOf_writes (stage : Stage α) {cue : Cue α} {c : Channel}
    (hduration : 0 ≤ cue.duration) (hc : c.property ≠ .highlight) :
    Keyframe.InOrder (keysOf c (cue.writes stage)) := by
  have hspan : cue.start ≤ cue.finish := le_add_of_nonneg_right hduration
  unfold writes Keyframe.InOrder
  cases cue.effect with
  | create element =>
      cases hopacity : element.form.opacity? <;>
        simp only [hopacity, Option.toList_none, Option.toList_some, List.map_nil,
          List.map_cons, keysOf_cons, keysOf_nil] <;>
        split_ifs <;> simp_all [Keyframe.number, Keyframe.flag]
  | pulse target color repetitions =>
      rw [keysOf_pulse hc]
      exact List.Pairwise.nil
  | reveal | hide | fadeIn | fadeOut | highlight | drive | fold | rest =>
      simp only [keysOf_cons, keysOf_nil]
      try split_ifs
      all_goals simp [Keyframe.number, Keyframe.eased, Keyframe.flag, hspan]

/-- The last keyframe that a cue writes to a channel is what it leaves there. -/
theorem getLast?_keysOf_writes (stage : Stage α) (cue : Cue α) {c : Channel}
    (hc : c.property ≠ .highlight) :
    ((keysOf c (cue.writes stage)).getLast?).map (fun k => (k.time, k.value)) =
      cue.leaving? c := by
  have hdisjoint : ∀ target, (⟨.visibility, target⟩ : Channel) = c →
      (⟨.opacity, target⟩ : Channel) ≠ c := by
    rintro target rfl
    simp
  unfold writes leaving? leaves
  cases cue.effect with
  | create element =>
      cases hopacity : element.form.opacity? <;>
        simp only [hopacity, Option.toList_none, Option.toList_some, List.map_nil,
          List.map_cons, keysOf_cons, keysOf_nil, firstOn_cons, firstOn_nil] <;>
        split_ifs <;> simp_all [Keyframe.number, Keyframe.flag]
  | pulse target color repetitions =>
      rw [keysOf_pulse hc]
      rfl
  | highlight target color =>
      have hchannel : (⟨.highlight, target⟩ : Channel) ≠ c :=
        fun h => hc (congrArg Channel.property h).symm
      simp [hchannel]
  | reveal | hide | fadeIn | fadeOut | drive | fold | rest =>
      simp only [keysOf_cons, keysOf_nil, firstOn_cons, firstOn_nil]
      try split_ifs
      all_goals simp_all [Keyframe.number, Keyframe.eased, Keyframe.flag]

/-- The first keyframe that a cue writes to a channel of numbers is its lead. -/
theorem head?_keysOf_writes (stage : Stage α) (cue : Cue α) {c : Channel}
    (hhighlight : c.property ≠ .highlight) (hvisibility : c.property ≠ .visibility) :
    (keysOf c (cue.writes stage)).head? =
      (cue.lead? stage c).map fun lead => Keyframe.number lead.1 lead.2 := by
  have hflag : ∀ target, (⟨.visibility, target⟩ : Channel) ≠ c :=
    fun target h => hvisibility (congrArg Channel.property h).symm
  unfold writes lead? leads
  cases cue.effect with
  | create element =>
      cases hopacity : element.form.opacity? <;>
        simp only [hopacity, Option.toList_none, Option.toList_some, List.map_nil,
          List.map_cons, keysOf_cons, keysOf_nil, firstOn_cons, firstOn_nil,
          if_neg (hflag _)] <;>
        try split_ifs
      all_goals rfl
  | pulse target color repetitions =>
      rw [keysOf_pulse hhighlight]
      rfl
  | highlight target color =>
      have hchannel : (⟨.highlight, target⟩ : Channel) ≠ c :=
        fun h => hhighlight (congrArg Channel.property h).symm
      simp [hchannel]
  | reveal | hide | fadeIn | fadeOut | drive | fold | rest =>
      simp only [keysOf_cons, keysOf_nil, firstOn_cons, firstOn_nil, if_neg (hflag _)]
      try split_ifs
      all_goals rfl

theorem time_of_leaving? {cue : Cue α} {c : Channel} {mark : α × KeyValue α}
    (hduration : 0 ≤ cue.duration) (h : cue.leaving? c = some mark) :
    cue.start ≤ mark.1 ∧ mark.1 ≤ cue.finish := by
  have hspan : cue.start ≤ cue.finish := le_add_of_nonneg_right hduration
  rcases (cue.forall_mem_leaves _ (mem_of_firstOn h)).2 with htime | htime <;>
    simp_all

end Keyframes

end Cue

end Storyboard
