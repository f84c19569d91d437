import Storyboard.Figure.Basic

/-!
# Passages

Several points are located in one pass.  The pass keeps a chain, the declared points
that are being placed, which each look-up takes over from the one before it and hands
on to the next.

A passage is what a look-up comes to that has found a chain: a result, and the chain
that it leaves.  It leaves the chain that it has found unless it fails.
-/

namespace Storyboard

/-- The result of a look-up that has found a chain, with the chain that it leaves. -/
structure Passage (found : List String) (β : Type) where
  result : Except Fault β
  left : List String
  left_eq : ∀ b, result = .ok b → left = found

namespace Passage

variable {found : List String} {β γ : Type}

/-- A result that is there without a look-up. -/
def settled (result : Except Fault β) : Passage found β := ⟨result, found, fun _ _ => rfl⟩

/-- A point that has been met again in its own chain.  The fault takes the chain away. -/
def cycle (id : String) : Passage found β := ⟨.error (.cyclic (found ++ [id])), [], nofun⟩

/-- A passage with one more name on the chain, which is taken off in the end. -/
def within (id : String) (inner : Passage (found ++ [id]) β) : Passage found β :=
  ⟨inner.result, inner.left.dropLast, fun b hb => by
    rw [inner.left_eq b hb, List.dropLast_concat]⟩

/-- Goes on with a result, in the chain that has been left. -/
def andThen (first : Passage found β)
    (next : β → (chain : List String) → chain = found → Passage chain γ) : Passage found γ :=
  match hfirst : first.result with
  | .error fault => ⟨.error fault, first.left, nofun⟩
  | .ok b =>
    let second := next b first.left (first.left_eq b hfirst)
    ⟨second.result, second.left, fun c hc =>
      (second.left_eq c hc).trans (first.left_eq b hfirst)⟩

/-- A look-up of any name in a chain like the one that has been found. -/
abbrev Look (found : List String) (β : Type) :=
  (chain : List String) → chain = found → String → Passage chain β

/-- Makes something of two look-ups, one after the other. -/
def both (look : Look found β) (a b : String) (make : β → β → γ) : Passage found γ :=
  (look found rfl a).andThen fun p chain hchain =>
    (look chain hchain b).andThen fun q _ _ => settled (.ok (make p q))

/-- Makes something of three look-ups, one after the other, if it can be made. -/
def triple (look : Look found β) (a b c : String) (make : β → β → β → Except Fault γ) :
    Passage found γ :=
  (look found rfl a).andThen fun p chain hchain =>
    (look chain hchain b).andThen fun q chain' hchain' =>
      (look chain' (hchain'.trans hchain) c).andThen fun r _ _ => settled (make p q r)

/-- Looks up the names of a list, one after the other. -/
def each {found : List String} (look : Look found β) : List String → Passage found (List β)
  | [] => settled (.ok [])
  | id :: rest =>
    (look found rfl id).andThen fun b _ hchain =>
      (each (fun chain' h => look chain' (h.trans hchain)) rest).andThen fun bs _ _ =>
        settled (.ok (b :: bs))

section Results

theorem result_andThen (first : Passage found β)
    (next : β → (chain : List String) → chain = found → Passage chain γ) :
    (first.andThen next).result = first.result >>= fun b => (next b found rfl).result := by
  unfold andThen
  split
  next fault hfirst =>
    rw [hfirst]
    rfl
  next b hfirst =>
    have hleft : first.left = found := first.left_eq b hfirst
    have hnext : ∀ (chain : List String) (h : chain = found),
        (next b chain h).result = (next b found rfl).result := by
      rintro chain rfl
      rfl
    calc
      (next b first.left hleft).result = (next b found rfl).result := hnext first.left hleft
      _ = first.result >>= fun b => (next b found rfl).result := by
        rw [hfirst]
        rfl

theorem result_both (look : Look found β) (a b : String) (make : β → β → γ) :
    (both look a b make).result = do
      let p ← (look found rfl a).result
      let q ← (look found rfl b).result
      return make p q := by
  simp only [both, result_andThen]
  rfl

theorem result_triple (look : Look found β) (a b c : String)
    (make : β → β → β → Except Fault γ) :
    (triple look a b c make).result = (do
      let p ← (look found rfl a).result
      let q ← (look found rfl b).result
      let r ← (look found rfl c).result
      make p q r) := by
  simp only [triple, result_andThen]
  rfl

/-- The names of a list are looked up as they would be one by one. -/
theorem result_each (look : Look found β) (ids : List String) :
    (each look ids).result = ids.mapM fun id => (look found rfl id).result := by
  induction ids with
  | nil => rfl
  | cons id rest ih =>
      rw [each, result_andThen, List.mapM_cons]
      congr 1
      funext b
      rw [result_andThen, ih]
      rfl

end Results

end Passage

end Storyboard
