import Mathlib.Logic.Relation
import Storyboard.Proofs.Figure.Standstill

/-!
# Questions that go astray

The question whether a point can move follows the references of declarations one after
the other, and stops at the first that moves.  It has an answer exactly if it does not go
astray: it consults no name that nothing is known of, and comes to no name again that it
has set out from.  Since it follows all references of a declaration, it may go astray on
one that the location of the point never looks up.
-/

namespace Storyboard

variable {α : Type}

/-- What is known at once of the movement of a name. -/
inductive Motion (α : Type) where
  | known (moves : Bool)
  /-- It depends on the references of a declaration. -/
  | asked (p : NamedPoint α)
  | unknown

namespace Figure

/-- What is known at once of the movement of a name. -/
def motion (fig : Figure α) (id : String) : Motion α :=
  if id = centerId then .known false
  else if fig.isFolded id then .known true
  else if fig.vertices.contains id then .known false
  else
    match fig.definition? id with
    | none => .unknown
    | some p => if p.kind = .onSegment then .known true else .asked p

/-- A name that stands still, and everything that it refers to with it. -/
inductive Still (fig : Figure α) : String → Prop
  | known {id : String} (h : fig.motion id = .known false) : Still fig id
  | asked {id : String} {p : NamedPoint α} (h : fig.motion id = .asked p)
      (hall : ∀ r ∈ p.references, Still fig r) : Still fig id

/--
A name that is consulted for another one, being a reference of its declaration before
which all references stand still.
-/
def Consults (fig : Figure α) (x r : String) : Prop :=
  ∃ p front back, fig.motion x = .asked p ∧ p.references = front ++ r :: back ∧
    ∀ q ∈ front, fig.Still q

/--
A name for which the question goes astray, to a name that nothing is known of or to one
that is consulted for itself.
-/
def Strays (fig : Figure α) (id : String) : Prop :=
  ∃ r, Relation.ReflTransGen fig.Consults id r ∧
    (fig.motion r = .unknown ∨ Relation.TransGen fig.Consults r r)

/-! ## What is known at once -/

section Motion

variable {fig : Figure α} {id : String}

theorem of_motion_eq_unknown (h : fig.motion id = .unknown) :
    id ≠ centerId ∧ fig.isFolded id = false ∧ fig.vertices.contains id = false ∧
      fig.definition? id = none := by
  unfold motion at h
  split_ifs at h with hcenter hfolded hvertex
  split at h
  next hdef =>
    exact ⟨hcenter, eq_false_of_ne_true hfolded, eq_false_of_ne_true hvertex, hdef⟩
  next => split_ifs at h

theorem of_motion_eq_asked {p : NamedPoint α} (h : fig.motion id = .asked p) :
    id ≠ centerId ∧ fig.isFolded id = false ∧ fig.vertices.contains id = false ∧
      fig.definition? id = some p := by
  unfold motion at h
  split_ifs at h with hcenter hfolded hvertex
  split at h
  next => cases h
  next p' hdef =>
    split_ifs at h
    cases h
    exact ⟨hcenter, eq_false_of_ne_true hfolded, eq_false_of_ne_true hvertex, hdef⟩

/-- The question within a chain, from what is known at once. -/
theorem movesIn_eq (fig : Figure α) (chain : List String) (id : String) :
    fig.movesIn chain id =
      match fig.motion id with
      | .known moves => .ok moves
      | .unknown => .error (.unknownPoint id)
      | .asked p =>
        if id ∈ chain then .error (.cyclic (chain ++ [id]))
        else p.references.anyM fun r => fig.movesIn (chain ++ [id]) r := by
  rw [movesIn, motion]
  by_cases hcenter : id = centerId
  · rw [if_pos hcenter, if_pos hcenter]
  · rw [if_neg hcenter, if_neg hcenter]
    cases fig.isFolded id with
    | true => rfl
    | false =>
        cases fig.vertices.contains id with
        | true => rfl
        | false =>
            simp only [Bool.false_eq_true, if_false]
            split
            next hdef => rw [hdef]
            next p hdef =>
              rw [hdef]
              dsimp only
              split_ifs <;> rfl

end Motion

/-! ## The answers -/

section Answers

variable {fig : Figure α}

/-- An answer is no exactly if the name stands still. -/
theorem eq_false_iff_still_of_movesIn {chain : List String} {id : String} {b : Bool}
    (h : fig.movesIn chain id = .ok b) : b = false ↔ fig.Still id := by
  induction hcount : fig.unplaced chain using Nat.strongRecOn generalizing chain id b with
  | _ count ih =>
      subst hcount
      rw [movesIn_eq] at h
      split at h
      next moves hmotion =>
        cases h
        constructor
        · rintro rfl
          exact .known hmotion
        · rintro (hknown | ⟨hasked, -⟩)
          · exact Motion.known.inj (hmotion.symm.trans hknown)
          · cases hmotion.symm.trans hasked
      next => cases h
      next p hmotion =>
        split at h
        next => cases h
        next hchain =>
          have hlt := unplaced_lt (of_motion_eq_asked hmotion).2.2.2 hchain
          constructor
          · rintro rfl
            exact .asked hmotion fun r hr =>
              (ih _ hlt (forall_of_anyM_eq_false h r hr) rfl).mp rfl
          · rintro (hknown | ⟨hasked, hall⟩)
            · cases hmotion.symm.trans hknown
            · cases hmotion.symm.trans hasked
              cases b with
              | false => rfl
              | true =>
                  -- the search stopped at a reference that moves, but all of them stand still
                  obtain ⟨r, hr, hmoves⟩ := exists_of_anyM_eq_true h
                  exact (ih _ hlt hmoves rfl).mpr (hall r hr)

/-- The question goes astray at the name itself or at one that is consulted for it. -/
theorem strays_iff {id : String} :
    fig.Strays id ↔ fig.motion id = .unknown ∨ ∃ r, fig.Consults id r ∧ fig.Strays r := by
  constructor
  · rintro ⟨q, hreach, hbad⟩
    rcases Relation.ReflTransGen.cases_head hreach with rfl | ⟨r, hstep, hrest⟩
    · rcases hbad with hunknown | hcycle
      · exact Or.inl hunknown
      · obtain ⟨r, hstep, hback⟩ := Relation.TransGen.head'_iff.mp hcycle
        exact Or.inr ⟨r, hstep, id, hback, Or.inr hcycle⟩
    · exact Or.inr ⟨r, hstep, q, hrest, hbad⟩
  · rintro (hunknown | ⟨r, hstep, q, hreach, hbad⟩)
    · exact ⟨id, .refl, Or.inl hunknown⟩
    · exact ⟨q, .head hstep hreach, hbad⟩

/-- A question that has an answer does not go astray. -/
theorem not_strays_of_movesIn {chain : List String} {id : String} {b : Bool}
    (h : fig.movesIn chain id = .ok b) : ¬ fig.Strays id := by
  induction hcount : fig.unplaced chain using Nat.strongRecOn generalizing chain id b with
  | _ count ih =>
      subst hcount
      intro hstrays
      rw [movesIn_eq] at h
      rcases strays_iff.mp hstrays with hunknown | ⟨r, ⟨p, front, back, hmotion, hrefs, hstill⟩, hr⟩
      · rw [hunknown] at h
        cases h
      · rw [hmotion] at h
        dsimp only at h
        split at h
        next => cases h
        next hchain =>
          have hlt := unplaced_lt (of_motion_eq_asked hmotion).2.2.2 hchain
          rw [hrefs] at h
          obtain ⟨b', hb'⟩ := exists_ok_of_anyM_eq_ok h fun q hq b' hb' =>
            (eq_false_iff_still_of_movesIn hb').mpr (hstill q hq)
          exact ih _ hlt hb' rfl hr

/-- A question that does not go astray has an answer. -/
theorem exists_movesIn_eq_ok {chain : List String} {id : String} (h : ¬ fig.Strays id)
    (hchain : ∀ x ∈ chain, Relation.TransGen fig.Consults x id) :
    ∃ b, fig.movesIn chain id = .ok b := by
  induction hcount : fig.unplaced chain using Nat.strongRecOn generalizing chain id with
  | _ count ih =>
      subst hcount
      rw [movesIn_eq]
      cases hmotion : fig.motion id with
      | known moves => exact ⟨moves, rfl⟩
      | unknown => exact absurd (strays_iff.mpr (Or.inl hmotion)) h
      | asked p =>
          -- the chain leads here by consulted names, so that to meet it again is a cycle
          have hnew : id ∉ chain := fun hmem => h ⟨id, .refl, Or.inr (hchain id hmem)⟩
          have hlt := unplaced_lt (of_motion_eq_asked hmotion).2.2.2 hnew
          dsimp only
          rw [if_neg hnew]
          apply exists_anyM_eq_ok
          intro front r back hrefs hfront
          have hstep : fig.Consults id r := ⟨p, front, back, hmotion, hrefs, fun q hq =>
            (eq_false_iff_still_of_movesIn (hfront q hq)).mp rfl⟩
          refine ih _ hlt (fun hr => h (strays_iff.mpr (Or.inr ⟨r, hstep, hr⟩))) ?_ rfl
          intro x hx
          rcases List.mem_append.mp hx with hx | hx
          · exact (hchain x hx).tail hstep
          · rw [List.mem_singleton.mp hx]
            exact .single hstep

/-- The question has an answer exactly if it does not go astray. -/
theorem exists_moves_eq_ok_iff {id : String} :
    (∃ b, fig.moves id = .ok b) ↔ ¬ fig.Strays id := by
  constructor
  · rintro ⟨b, h⟩
    exact not_strays_of_movesIn h
  · intro h
    exact exists_movesIn_eq_ok h fun x hx => absurd hx List.not_mem_nil

end Answers

/-! ## Where the question goes astray -/

section Blame

variable {fig : Figure α} {id : String}

theorem referent_of_motion_eq_unknown (h : fig.motion id = .unknown) :
    fig.referent ⟨true, id⟩ = .unknown := by
  obtain ⟨hcenter, hfolded, hvertex, hdef⟩ := of_motion_eq_unknown h
  exact referent_eq_unknown_iff.mpr ⟨hcenter, fun _ => foldOnto?_eq_none_iff.mpr hfolded,
    OrderedMap.get?_eq_none_of_contains hvertex, hdef⟩

theorem referent_of_motion_eq_asked {p : NamedPoint α} (h : fig.motion id = .asked p) :
    fig.referent ⟨true, id⟩ = .declared p := by
  obtain ⟨hcenter, hfolded, hvertex, hdef⟩ := of_motion_eq_asked h
  exact referent_eq_declared_iff.mpr ⟨hcenter, fun _ => foldOnto?_eq_none_iff.mpr hfolded,
    OrderedMap.get?_eq_none_of_contains hvertex, hdef⟩

/--
Where a point is located, the question goes astray only through a reference that the kind
of its declaration makes no use of.
-/
theorem exists_unused_of_strays [Analytic α] {setting : Setting α} {chain : List String}
    {v : Vec α} (h : fig.answer setting chain ⟨true, id⟩ = .ok v) (hstrays : fig.Strays id) :
    ∃ x p r, Relation.ReflTransGen fig.Consults id x ∧ fig.definition? x = some p ∧
      fig.Consults x r ∧ r ∉ p.uses ∧ fig.Strays r := by
  induction hdepth : fig.depth chain ⟨true, id⟩ using Nat.strongRecOn
    generalizing chain id v with
  | _ depth ih =>
      subst hdepth
      rcases strays_iff.mp hstrays with hunknown | ⟨r, hstep, hr⟩
      · rw [answer_eq, locateBy, referent_of_motion_eq_unknown hunknown] at h
        cases h
      · obtain ⟨p, front, back, hmotion, hrefs, hstill⟩ := hstep
        have hstep : fig.Consults id r := ⟨p, front, back, hmotion, hrefs, hstill⟩
        by_cases huse : r ∈ p.uses
        · -- the location looks the reference up too, and finds it
          have hdepends : fig.DependsOn ⟨true, id⟩ ⟨true, r⟩ := by
            rw [DependsOn, dependencies, referent_of_motion_eq_asked hmotion]
            exact List.mem_map.mpr ⟨r, huse, rfl⟩
          obtain ⟨chain', w, hasks, hw⟩ := exists_asks_of_answer_eq_ok h hdepends
          obtain ⟨x, p', r', hreach, hblame⟩ := ih _ hasks.depth_lt hw hr rfl
          exact ⟨x, p', r', .head hstep hreach, hblame⟩
        · exact ⟨id, p, r, .refl, (of_motion_eq_asked hmotion).2.2.2, hstep, huse, hr⟩

end Blame

end Figure

end Storyboard
