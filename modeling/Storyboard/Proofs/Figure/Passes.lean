import Storyboard.Proofs.Figure.Cycles
import Storyboard.Proofs.Figure.Values

/-!
# Several points in one pass

The points of a measurement and the ends of a segment are located in one pass, whose
chain goes from one look-up to the next.  No look-up finds anything on the chain that an
earlier one has forgotten there: the chain is left as it has been found, or the pass has
come to its end with a cycle.  So each point is located as it would be alone.

A name on the chain can only make a look-up fail.  What is located within a chain is
located alike within any part of it.
-/

namespace Storyboard

/-! ## What is left of a chain -/

namespace Passage

variable {found : List String} {β γ : Type}

/-- The chain is left as it has been found, or nothing of it is left by a cyclic fault. -/
def Keeps (p : Passage found β) : Prop :=
  p.left = found ∨ p.left = [] ∧ ∃ cycle, p.result = .error (.cyclic cycle)

theorem keeps_settled (result : Except Fault β) : (settled result : Passage found β).Keeps :=
  Or.inl rfl

theorem keeps_cycle (id : String) : (cycle id : Passage found β).Keeps :=
  Or.inr ⟨rfl, _, rfl⟩

theorem Keeps.within {id : String} {inner : Passage (found ++ [id]) β} (h : inner.Keeps) :
    (inner.within id).Keeps := by
  have hdrop : (inner.within id).left = inner.left.dropLast := rfl
  rcases h with hleft | ⟨hleft, hcycle⟩
  · left
    rw [hdrop, hleft, List.dropLast_concat]
  · right
    refine ⟨?_, hcycle⟩
    rw [hdrop, hleft, List.dropLast_nil]

theorem Keeps.andThen {first : Passage found β}
    {next : β → (chain : List String) → chain = found → Passage chain γ} (h : first.Keeps)
    (hnext : ∀ b chain hchain, (next b chain hchain).Keeps) : (first.andThen next).Keeps := by
  unfold Passage.andThen
  split
  next fault hfirst =>
    rcases h with hleft | ⟨hleft, cycle, hcycle⟩
    · exact Or.inl hleft
    · obtain rfl : fault = .cyclic cycle := Except.error.inj (hfirst.symm.trans hcycle)
      exact Or.inr ⟨hleft, cycle, rfl⟩
  next b hfirst =>
    have hleft : first.left = found := first.left_eq b hfirst
    rcases hnext b first.left hleft with hkept | hlost
    · exact Or.inl (hkept.trans hleft)
    · exact Or.inr hlost

variable {look : Look found β} (h : ∀ chain hchain id, (look chain hchain id).Keeps)
include h

theorem keeps_both (a b : String) (make : β → β → γ) : (both look a b make).Keeps :=
  (h _ _ a).andThen fun _ _ _ => (h _ _ b).andThen fun _ _ _ => keeps_settled _

theorem keeps_triple (a b c : String) (make : β → β → β → Except Fault γ) :
    (triple look a b c make).Keeps :=
  (h _ _ a).andThen fun _ _ _ => (h _ _ b).andThen fun _ _ _ =>
    (h _ _ c).andThen fun _ _ _ => keeps_settled _

theorem keeps_each (ids : List String) : (each look ids).Keeps := by
  induction ids generalizing found with
  | nil => exact keeps_settled _
  | cons id rest ih =>
      refine (h _ _ id).andThen fun b chain hchain => ?_
      have hrest := ih fun chain' hchain' => h chain' (hchain'.trans hchain)
      exact hrest.andThen fun _ _ _ => keeps_settled _

end Passage

namespace Figure

variable {α : Type} [Analytic α] {fig : Figure α} {setting : Setting α}

section Steps

variable {chain : List String} {look : Passage.Look chain (Vec α)}
  (h : ∀ chain' hchain id, (look chain' hchain id).Keeps)
include h

theorem keeps_turnIn (f : Fold α) (k : Nat) : (fig.turnIn setting f k look).Keeps := by
  unfold turnIn
  split
  next => exact Passage.keeps_settled _
  next source _ => exact Passage.keeps_triple h source f.hinge.1 f.hinge.2 _

theorem keeps_placeIn (p : NamedPoint α) : (fig.placeIn setting p look).Keeps := by
  unfold placeIn
  split
  next => exact Passage.keeps_settled _
  next => exact Passage.keeps_settled _
  next a b _ => exact Passage.keeps_both h a b _
  next a b ratio _ => exact Passage.keeps_both h a b _
  next a b param _ =>
    split
    · exact Passage.keeps_settled _
    · exact Passage.keeps_both h a b _
  next points _ =>
    exact (Passage.keeps_each h points).andThen fun _ _ _ => Passage.keeps_settled _

end Steps

/-- A look-up leaves the chain that it has found, unless it comes upon a cycle. -/
theorem keeps_pass (fig : Figure α) (setting : Setting α) (chain : List String) (folding : Bool)
    (id : String) : (fig.pass setting chain folding id).Keeps := by
  fun_induction pass fig setting chain folding id with
  | case1 | case3 | case4 => exact Passage.keeps_settled _
  | case2 chain folding id hcenter f k hfold ih => exact keeps_turnIn ih f k
  | case5 chain folding id => exact Passage.keeps_cycle id
  | case6 chain folding id hcenter hfold hvertex p hdef hchain ih =>
      exact (keeps_placeIn ih p).within

/-! ## Fewer names on the chain -/

/-- What is located within a chain is located alike within any part of it. -/
theorem answer_of_subset {chain chain' : List String} {q : LookUp} {v : Vec α}
    (hsubset : chain' ⊆ chain) (h : fig.answer setting chain q = .ok v) :
    fig.answer setting chain' q = .ok v := by
  induction hdepth : fig.depth chain q using Nat.strongRecOn generalizing chain chain' q v with
  | _ depth ih =>
      subst hdepth
      have hsame : fig.SameValues setting fig setting :=
        sameValues_of_get?_eq fig (fun _ => rfl) fun _ => rfl
      cases href : fig.referent q with
      | origin | vertex w | unknown =>
          rw [answer_eq, locateBy, href] at h ⊢
          exact h
      | turned f k =>
          rw [answer_of_turned href] at h ⊢
          rw [← h]
          apply SameValues.turnBy ⟨rfl, rfl, rfl, rfl, rfl⟩
          intro id hid
          obtain ⟨w, hw⟩ := turnBy_eq_ok h id hid
          rw [hw]
          exact ih _ (Asks.turned href hid).depth_lt hsubset hw rfl
      | declared p =>
          rw [answer_of_declared href] at h ⊢
          split_ifs at h with hchain
          have hchain' : q.id ∉ chain' := fun hmem => hchain (hsubset hmem)
          rw [if_neg hchain', ← h]
          apply hsame.placeBy
          intro id hid
          obtain ⟨w, hw⟩ := placeBy_eq_ok h id hid
          rw [hw]
          have hlonger : chain' ++ [q.id] ⊆ chain ++ [q.id] :=
            List.append_subset.mpr ⟨List.subset_append_of_subset_left _ hsubset,
              List.subset_append_right _ _⟩
          exact ih _ (Asks.declared href hchain hid).depth_lt hlonger hw rfl

/-! ## Points in turn -/

theorem measure_eq {id : String} {m : Measurement} (h : fig.measurement? id = some m) :
    fig.measure setting id = (m.points.mapM (fig.locate setting)).bind m.value := by
  rw [measure, h, ← locateAll_eq]
  rfl

theorem segment_eq (start finish : String) :
    fig.segment setting start finish = do
      let p ← fig.locate setting start
      let q ← fig.locate setting finish
      return (p, q) :=
  Passage.result_both _ start finish Prod.mk

/--
A measurement is made of the points that are located one by one, and fails as the first of
them that fails; the ends of a segment are the same two points.  For a look-up leaves the
chain of its pass as it has found it, or a cyclic fault leaves nothing of it, and what it
locates within the chain is located alike within any part of the chain, the empty one for
instance.
-/
theorem located_in_one_pass (fig : Figure α) (setting : Setting α) :
    (∀ id m, fig.measurement? id = some m →
      (∀ points, List.Forall₂ (fun p v => fig.locate setting p = .ok v) m.points points →
        fig.measure setting id = m.value points) ∧
      ∀ front p back fault, m.points = front ++ p :: back →
        (∀ q ∈ front, ∃ v, fig.locate setting q = .ok v) →
        fig.locate setting p = .error fault → fig.measure setting id = .error fault) ∧
    (∀ start finish, fig.segment setting start finish = do
      let p ← fig.locate setting start
      let q ← fig.locate setting finish
      return (p, q)) ∧
    ∀ chain folding id,
      (fig.pass setting chain folding id).Keeps ∧
      ∀ v, (fig.pass setting chain folding id).result = .ok v →
        (fig.pass setting chain folding id).left = chain ∧
        ∀ chain' ⊆ chain, (fig.pass setting chain' folding id).result = .ok v := by
  refine ⟨fun id m hm => ⟨?_, ?_⟩, segment_eq, fun chain folding id => ⟨?_, ?_⟩⟩
  · intro points hpoints
    rw [measure_eq hm, mapM_eq_ok_of_forall₂ hpoints]
    rfl
  · intro front p back fault hsplit hfront hp
    rw [measure_eq hm, hsplit, mapM_append_cons_eq_error hfront hp back]
    rfl
  · exact keeps_pass fig setting chain folding id
  · intro v hv
    refine ⟨(fig.pass setting chain folding id).left_eq v hv, fun chain' hsubset => ?_⟩
    have hanswer : fig.answer setting chain ⟨folding, id⟩ = .ok v := hv
    exact answer_of_subset hsubset hanswer

/-- The laced cube with a distance between points that share a third one, and with a cycle. -/
def measuredCube : Model Float :=
  { lacedCube with measurements := [
      ⟨"gap", .distance, ["M", "O"]⟩,
      ⟨"loop", .area, ["M", "O", "P", "X"]⟩] }

theorem located_in_one_pass_measured :
    ∃ fig p q, measuredCube.figure = .ok fig ∧ fig.locate .none "M" = .ok p ∧
      fig.locate .none "O" = .ok q ∧ fig.measure .none "gap" = .ok (p.distance q) ∧
      fig.measure .none "loop" = .error (.cyclic ["P", "Q", "P"]) ∧
      fig.segment .none "M" "O" = .ok (p, q) ∧
      (fig.pass .none ["M"] true "O").left = ["M"] := by
  let fig : Figure Float := ⟨measuredCube, (measuredCube.solid.vertices?).getD .empty⟩
  obtain ⟨p, hM⟩ : ∃ p, fig.locate .none "M" = .ok p := exists_ok_of_isOk (by decide +kernel)
  obtain ⟨q, hO⟩ : ∃ q, fig.locate .none "O" = .ok q := exists_ok_of_isOk (by decide +kernel)
  obtain ⟨w, hw⟩ : ∃ w, (fig.pass .none ["M"] true "O").result = .ok w :=
    exists_ok_of_isOk (by decide +kernel)
  have hP : fig.locate .none "P" = .error (.cyclic ["P", "Q", "P"]) := by decide +kernel
  obtain ⟨hmeasure, hsegment, hpass⟩ := located_in_one_pass fig .none
  refine ⟨fig, p, q, rfl, hM, hO, ?_, ?_, ?_, ((hpass ["M"] true "O").2 w hw).1⟩
  · exact (hmeasure "gap" _ rfl).1 [p, q] (.cons hM (.cons hO .nil))
  · refine (hmeasure "loop" _ rfl).2 ["M", "O"] "P" ["X"] _ rfl ?_ hP
    intro id hid
    rcases List.mem_pair.mp hid with rfl | rfl
    · exact ⟨p, hM⟩
    · exact ⟨q, hO⟩
  · rw [hsegment, hM, hO]
    rfl

end Figure

end Storyboard
