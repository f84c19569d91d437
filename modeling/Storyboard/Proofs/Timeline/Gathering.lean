import Storyboard.Proofs.Number.Exact
import Storyboard.Timeline.Production

/-!
# Gathering writes into tracks

A track holds the keyframes that were written to its channel, ordered by time and,
among those of one time, by the order of writing.  Hence the last keyframe of a
track is the latest that was written, and the first is the earliest.
-/

namespace Storyboard

section Extremes

variable {α β γ : Type} [Scalar α]

/-- The later of two items; at the same time the one that comes second counts. -/
def later (time : β → α) (best : Option β) (item : β) : Option β :=
  match best with
  | none => some item
  | some b => if time b ≤ time item then some item else some b

/-- The earlier of two items; at the same time the one that comes first counts. -/
def earlier (time : β → α) (best : Option β) (item : β) : Option β :=
  match best with
  | none => some item
  | some b => if time b ≤ time item then some b else some item

/-- The latest item of a list; of several at that time the last one. -/
def latestBy (time : β → α) (items : List β) : Option β :=
  items.foldl (later time) none

/-- The earliest item of a list; of several at that time the first one. -/
def earliestBy (time : β → α) (items : List β) : Option β :=
  items.foldl (earlier time) none

theorem foldl_later_map (time : γ → α) (f : β → γ) (items : List β) (best : Option β) :
    (items.map f).foldl (later time) (best.map f) =
      (items.foldl (later fun b => time (f b)) best).map f := by
  induction items generalizing best with
  | nil => rfl
  | cons item rest ih =>
      have hstep : later time (best.map f) (f item) =
          (later (fun b => time (f b)) best item).map f := by
        cases best with
        | none => rfl
        | some b =>
            simp only [later, Option.map_some]
            split <;> rfl
      simp only [List.map_cons, List.foldl_cons, hstep]
      exact ih _

theorem foldl_earlier_map
    (time : γ → α) (f : β → γ) (items : List β) (best : Option β) :
    (items.map f).foldl (earlier time) (best.map f) =
      (items.foldl (earlier fun b => time (f b)) best).map f := by
  induction items generalizing best with
  | nil => rfl
  | cons item rest ih =>
      have hstep : earlier time (best.map f) (f item) =
          (earlier (fun b => time (f b)) best item).map f := by
        cases best with
        | none => rfl
        | some b =>
            simp only [earlier, Option.map_some]
            split <;> rfl
      simp only [List.map_cons, List.foldl_cons, hstep]
      exact ih _

theorem earliestBy_map (time : γ → α) (f : β → γ) (items : List β) :
    earliestBy time (items.map f) = (earliestBy (fun b => time (f b)) items).map f :=
  foldl_earlier_map time f items none

theorem exists_mem_foldl_later (time : β → α) (items : List β) (b : β) :
    ∃ item, items.foldl (later time) (some b) = some item ∧ item ∈ b :: items := by
  induction items generalizing b with
  | nil => exact ⟨b, rfl, List.mem_cons_self⟩
  | cons item rest ih =>
      simp only [List.foldl_cons, later]
      split
      · obtain ⟨found, hfound, hmem⟩ := ih item
        exact ⟨found, hfound, List.mem_cons_of_mem b hmem⟩
      · obtain ⟨found, hfound, hmem⟩ := ih b
        refine ⟨found, hfound, ?_⟩
        rcases List.mem_cons.mp hmem with rfl | hmem
        · exact List.mem_cons_self
        · exact List.mem_cons_of_mem b (List.mem_cons_of_mem item hmem)

theorem exists_mem_latestBy {time : β → α} {items : List β} (h : items ≠ []) :
    ∃ item, latestBy time items = some item ∧ item ∈ items := by
  cases items with
  | nil => exact absurd rfl h
  | cons item rest => exact exists_mem_foldl_later time rest item

end Extremes

namespace Track

/-- Keyframes put into their places one after the other. -/
def arrange {α : Type} [Scalar α] (keys : List (Keyframe α)) : List (Keyframe α) :=
  keys.foldl (fun placed key => place key placed) []

/-- The keyframes among some writes that go to a channel. -/
def keysOf {α : Type} (channel : Channel) (writes : List (Write α)) :
    List (Keyframe α) :=
  (writes.filter fun w => w.1 = channel).map Prod.snd

section Channels

variable {α : Type}

@[simp] theorem keysOf_nil (channel : Channel) :
    keysOf channel ([] : List (Write α)) = [] := rfl

@[simp] theorem keysOf_cons (channel c : Channel) (key : Keyframe α)
    (ws : List (Write α)) :
    keysOf channel ((c, key) :: ws) =
      if c = channel then key :: keysOf channel ws else keysOf channel ws := by
  by_cases h : c = channel <;> simp [keysOf, h]

theorem keysOf_append (channel : Channel) (ws ws' : List (Write α)) :
    keysOf channel (ws ++ ws') = keysOf channel ws ++ keysOf channel ws' := by
  simp [keysOf]

theorem keysOf_eq_nil {channel : Channel} {ws : List (Write α)}
    (h : ∀ w ∈ ws, w.1 ≠ channel) : keysOf channel ws = [] := by
  simpa [keysOf] using h

theorem keysOf_map_key (channel c : Channel) (keys : List (Keyframe α)) :
    keysOf channel (keys.map fun key => (c, key)) = if c = channel then keys else [] := by
  induction keys with
  | nil => simp
  | cons key rest ih =>
      rw [List.map_cons, keysOf_cons, ih]
      split_ifs <;> rfl

theorem mem_keysOf {channel : Channel} {ws : List (Write α)} {key : Keyframe α} :
    key ∈ keysOf channel ws ↔ (channel, key) ∈ ws := by
  constructor
  · intro h
    obtain ⟨w, hw, rfl⟩ := List.mem_map.mp h
    obtain ⟨hmem, hchannel⟩ := List.mem_filter.mp hw
    obtain rfl : w.1 = channel := by simpa using hchannel
    exact hmem
  · intro h
    exact List.mem_map.mpr ⟨_, List.mem_filter.mpr ⟨h, by simp⟩, rfl⟩

theorem find?_map_toArray (channel : Channel)
    (entries : List (Channel × List (Keyframe α))) :
    ((entries.map fun e => (⟨e.1, e.2.toArray⟩ : Track α)).find? fun t =>
        t.channel == channel) =
      ((entries.find? fun e => e.1 = channel).map Prod.snd).map fun keys =>
        ⟨channel, keys.toArray⟩ := by
  induction entries with
  | nil => rfl
  | cons e rest ih =>
      by_cases h : e.1 = channel
      · subst h
        simp
      · have hbeq : (e.1 == channel) = false := by simpa using h
        simpa [List.find?_cons, h, hbeq] using ih

end Channels

variable {α : Type} [Scalar α]

/-! ## One track for each channel -/

theorem get?_foldl_gather
    (channel : Channel) (ws : List (Write α))
    (tracks : OrderedMap Channel (List (Keyframe α))) :
    (ws.foldl gather tracks).get? channel =
      (keysOf channel ws).foldl (fun placed key => some (place key (placed.getD [])))
        (tracks.get? channel) := by
  induction ws generalizing tracks with
  | nil => rfl
  | cons w ws ih =>
      rw [List.foldl_cons, ih, gather, OrderedMap.get?_upsert]
      by_cases h : w.1 = channel
      · subst h
        simp [keysOf]
      · rw [if_neg (Ne.symm h)]
        simp [keysOf, h]

theorem foldl_some_place (keys placed : List (Keyframe α)) :
    keys.foldl (fun placed key => some (place key (placed.getD []))) (some placed) =
      some (keys.foldl (fun placed key => place key placed) placed) := by
  induction keys generalizing placed with
  | nil => rfl
  | cons key rest ih => exact ih (place key placed)

/-- A channel has a track exactly when it was written to, and the track is in order. -/
theorem find?_ofWrites (channel : Channel) (ws : List (Write α)) :
    ((ofWrites ws).find? fun t => t.channel == channel) =
      match keysOf channel ws with
      | [] => none
      | key :: rest => some ⟨channel, (arrange (key :: rest)).toArray⟩ := by
  rw [ofWrites, find?_map_toArray]
  change ((ws.foldl gather OrderedMap.empty).get? channel).map _ = _
  rw [get?_foldl_gather]
  cases keysOf channel ws with
  | nil => rfl
  | cons key rest =>
      change Option.map _ (rest.foldl _ (some (place key []))) = _
      rw [foldl_some_place]
      rfl

theorem nodup_channels_ofWrites (ws : List (Write α)) :
    ((ofWrites ws).map Track.channel).Nodup := by
  have h := (ws.foldl gather OrderedMap.empty).nodup
  simpa [ofWrites, List.map_map, Function.comp_def] using h

/-! ## Keyframes in their places -/

theorem mem_place {key k : Keyframe α} {keys : List (Keyframe α)} :
    k ∈ place key keys ↔ k = key ∨ k ∈ keys := by
  induction keys with
  | nil => simp [place]
  | cons first rest ih =>
      rw [place]
      split
      · simp only [List.mem_cons, ih]
        tauto
      · simp only [List.mem_cons]

theorem mem_foldl_place {k : Keyframe α} (keys placed : List (Keyframe α)) :
    k ∈ keys.foldl (fun placed key => place key placed) placed ↔
      k ∈ keys ∨ k ∈ placed := by
  induction keys generalizing placed with
  | nil => simp
  | cons key rest ih =>
      rw [List.foldl_cons, ih, mem_place, List.mem_cons]
      tauto

theorem mem_arrange {k : Keyframe α} {keys : List (Keyframe α)} :
    k ∈ arrange keys ↔ k ∈ keys := by
  simpa [arrange] using mem_foldl_place (k := k) keys []

/-- A keyframe that is not earlier than any other is put behind them. -/
theorem place_of_forall_le {key : Keyframe α} {keys : List (Keyframe α)}
    (h : ∀ k ∈ keys, k.time ≤ key.time) : place key keys = keys ++ [key] := by
  induction keys with
  | nil => rfl
  | cons first rest ih =>
      obtain ⟨hfirst, hrest⟩ := List.forall_mem_cons.mp h
      rw [place, if_pos hfirst, ih hrest]
      rfl

/-- A keyframe written last and not earlier than any other stays last. -/
theorem arrange_concat {last : Keyframe α} {keys : List (Keyframe α)}
    (h : ∀ k ∈ keys, k.time ≤ last.time) : arrange (keys ++ [last]) = arrange keys ++ [last] := by
  rw [arrange, List.foldl_append]
  exact place_of_forall_le fun k hk => h k (mem_arrange.mp hk)

theorem foldl_place_cons {first : Keyframe α} (keys placed : List (Keyframe α))
    (h : ∀ k ∈ keys, first.time ≤ k.time) :
    keys.foldl (fun placed key => place key placed) (first :: placed) =
      first :: keys.foldl (fun placed key => place key placed) placed := by
  induction keys generalizing placed with
  | nil => rfl
  | cons key rest ih =>
      obtain ⟨hkey, hrest⟩ := List.forall_mem_cons.mp h
      rw [List.foldl_cons, place, if_pos hkey, ih _ hrest, List.foldl_cons]

/-- A keyframe written first and not later than any other stays first. -/
theorem arrange_cons {first : Keyframe α} {keys : List (Keyframe α)}
    (h : ∀ k ∈ keys, first.time ≤ k.time) :
    arrange (first :: keys) = first :: arrange keys :=
  foldl_place_cons keys [] h

end Track

/-! ## Items in order of time -/

section InOrder

variable {α β : Type} [ExactScalar α] {time : β → α}

/-- An item that is not later than the others counts only when there are none. -/
theorem foldl_later_some {first : β} {items : List β}
    (h : ∀ item ∈ items, time first ≤ time item) :
    items.foldl (later time) (some first) = (latestBy time items).or (some first) := by
  cases items with
  | nil => rfl
  | cons item rest =>
      obtain ⟨hitem, -⟩ := List.forall_mem_cons.mp h
      obtain ⟨found, hfound, -⟩ := exists_mem_foldl_later time rest item
      simp only [latestBy, List.foldl_cons, later, if_pos hitem, hfound, Option.or_some,
        Option.getD_some]

/-- An item that is not later than the others stays the earliest one. -/
theorem foldl_earlier_some {first : β} {items : List β}
    (h : ∀ item ∈ items, time first ≤ time item) :
    items.foldl (earlier time) (some first) = some first := by
  induction items with
  | nil => rfl
  | cons item rest ih =>
      obtain ⟨hitem, hrest⟩ := List.forall_mem_cons.mp h
      rw [List.foldl_cons, earlier, if_pos hitem]
      exact ih hrest

/-- Of items in order only the last can change which one is the latest. -/
theorem foldl_later_of_pairwise {items : List β}
    (h : items.Pairwise fun a b => time a ≤ time b) (best : Option β) :
    items.foldl (later time) best = items.getLast?.toList.foldl (later time) best := by
  induction items generalizing best with
  | nil => rfl
  | cons first rest ih =>
      obtain ⟨hfirst, hrest⟩ := List.pairwise_cons.mp h
      rw [List.foldl_cons, ih hrest, List.getLast?_cons]
      cases hlast : rest.getLast? with
      | none => rfl
      | some last =>
          have hle : time first ≤ time last := hfirst last (List.mem_of_getLast? hlast)
          cases best with
          | none => simp [later, hle]
          | some b =>
              by_cases hb : time b ≤ time first
              · simp [later, hb, hle, hb.trans hle]
              · simp [later, hb]

/-- Of items in order only the first can change which one is the earliest. -/
theorem foldl_earlier_of_pairwise {items : List β}
    (h : items.Pairwise fun a b => time a ≤ time b) (best : Option β) :
    items.foldl (earlier time) best = items.head?.toList.foldl (earlier time) best := by
  cases items with
  | nil => rfl
  | cons first rest =>
      obtain ⟨hfirst, -⟩ := List.pairwise_cons.mp h
      cases best with
      | none => exact foldl_earlier_some hfirst
      | some b =>
          simp only [List.foldl_cons, earlier, List.head?_cons, Option.toList_some,
            List.foldl_nil]
          by_cases hb : time b ≤ time first
          · rw [if_pos hb]
            exact foldl_earlier_some fun item hitem => hb.trans (hfirst item hitem)
          · rw [if_neg hb]
            exact foldl_earlier_some hfirst

theorem latestBy_of_pairwise {items : List β}
    (h : items.Pairwise fun a b => time a ≤ time b) : latestBy time items = items.getLast? := by
  rw [latestBy, foldl_later_of_pairwise h]
  cases items.getLast? <;> rfl

end InOrder

/-! ## The ends of a track -/

namespace Keyframe

variable {α : Type} [ExactScalar α]

/-- Keyframes none of which comes before an earlier time. -/
def InOrder (keys : List (Keyframe α)) : Prop :=
  keys.Pairwise fun a b => a.time ≤ b.time

end Keyframe

namespace Track

open Keyframe

variable {α : Type} [ExactScalar α]

theorem inOrder_place {key : Keyframe α} {keys : List (Keyframe α)}
    (h : InOrder keys) : InOrder (place key keys) := by
  induction keys with
  | nil => exact List.pairwise_singleton _ _
  | cons first rest ih =>
      obtain ⟨hfirst, hrest⟩ := List.pairwise_cons.mp h
      rw [place]
      split
      next hle =>
        refine List.pairwise_cons.mpr ⟨fun k hk => ?_, ih hrest⟩
        rcases mem_place.mp hk with rfl | hk
        · exact hle
        · exact hfirst k hk
      next hlt =>
        have hkey : key.time ≤ first.time := (not_le.mp hlt).le
        refine List.pairwise_cons.mpr ⟨fun k hk => ?_, h⟩
        rcases List.mem_cons.mp hk with rfl | hk
        · exact hkey
        · exact hkey.trans (hfirst k hk)

theorem getLast?_place {key : Keyframe α} {keys : List (Keyframe α)}
    (h : InOrder keys) :
    (place key keys).getLast? = later Keyframe.time keys.getLast? key := by
  induction keys with
  | nil => rfl
  | cons first rest ih =>
      obtain ⟨hfirst, hrest⟩ := List.pairwise_cons.mp h
      rw [place]
      split
      next hle =>
        rw [List.getLast?_cons, ih hrest, List.getLast?_cons]
        cases hlast : rest.getLast? with
        | none => simp [later, hle]
        | some last =>
            simp only [later, Option.getD_some]
            split <;> rfl
      next hlt =>
        rw [List.getLast?_cons_cons, List.getLast?_cons]
        have hlast : first.time ≤ (rest.getLast?.getD first).time := by
          cases hrest' : rest.getLast? with
          | none => exact le_rfl
          | some last => exact hfirst last (List.mem_of_getLast? hrest')
        have hnot : ¬ (rest.getLast?.getD first).time ≤ key.time :=
          fun hle => hlt (hlast.trans hle)
        simp [later, hnot]

theorem head?_place (key : Keyframe α) (keys : List (Keyframe α)) :
    (place key keys).head? = earlier Keyframe.time keys.head? key := by
  cases keys with
  | nil => rfl
  | cons first rest =>
      simp only [place, List.head?_cons, earlier]
      split <;> rfl

theorem foldl_place_ends (keys : List (Keyframe α)) :
    ∀ placed : List (Keyframe α), InOrder placed →
      InOrder (keys.foldl (fun placed key => place key placed) placed) ∧
        (keys.foldl (fun placed key => place key placed) placed).getLast? =
          keys.foldl (later Keyframe.time) placed.getLast? ∧
        (keys.foldl (fun placed key => place key placed) placed).head? =
          keys.foldl (earlier Keyframe.time) placed.head? := by
  induction keys with
  | nil =>
      intro placed h
      exact ⟨h, rfl, rfl⟩
  | cons key rest ih =>
      intro placed h
      have hrest := ih (place key placed) (inOrder_place h)
      rw [getLast?_place h, head?_place] at hrest
      exact hrest

theorem inOrder_arrange (keys : List (Keyframe α)) : InOrder (arrange keys) :=
  (foldl_place_ends keys [] List.Pairwise.nil).1

/-- The last keyframe of a track is the latest one. -/
theorem getLast?_arrange (keys : List (Keyframe α)) :
    (arrange keys).getLast? = latestBy Keyframe.time keys :=
  (foldl_place_ends keys [] List.Pairwise.nil).2.1

/-- The first keyframe of a track is the earliest one. -/
theorem head?_arrange (keys : List (Keyframe α)) :
    (arrange keys).head? = earliestBy Keyframe.time keys :=
  (foldl_place_ends keys [] List.Pairwise.nil).2.2

end Track

end Storyboard
