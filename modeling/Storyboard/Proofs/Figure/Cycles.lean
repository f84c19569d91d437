import Mathlib.Data.List.Chain
import Mathlib.Data.List.Nodup
import Mathlib.Logic.Relation
import Storyboard.Number.Double
import Storyboard.Proofs.Figure.LookUp

/-!
# Cycles among points

Points may be declared by one another in a circle, directly or through folds.  The
location of a point finds out: it never goes deeper than twice the number of
declarations, an answer means that nothing the point depends on depends on itself,
and a cyclic fault lists declared points of which each is placed by the next.
-/

namespace Storyboard.Figure

variable {α : Type}

/-! ## The depth of a location -/

/-- A result that is there, whether it is a point or a fault. -/
def settled {β : Type} (result : Except Fault β) : ExceptT Fault Option β :=
  ExceptT.mk (some result)

section Depth

variable {look : String → ExceptT Fault Option (Vec α)} {look' : String → Except Fault (Vec α)}

theorem pairBy_settled {a b : String} {make : Vec α → Vec α → Vec α}
    (h : ∀ id ∈ [a, b], look id = settled (look' id)) :
    pairBy look a b make = settled (pairBy look' a b make) := by
  unfold pairBy
  rw [h a (by simp), h b (by simp)]
  cases look' a with
  | error fault => rfl
  | ok p => cases look' b <;> rfl

theorem mapM_settled {ids : List String} (h : ∀ id ∈ ids, look id = settled (look' id)) :
    ids.mapM look = settled (ids.mapM look') := by
  induction ids with
  | nil => rfl
  | cons id rest ih =>
      rw [List.mapM_cons, List.mapM_cons, h id List.mem_cons_self,
        ih fun other hother => h other (List.mem_cons_of_mem _ hother)]
      cases look' id with
      | error fault => rfl
      | ok v => cases rest.mapM look' <;> rfl

variable [Analytic α] {fig : Figure α} {setting : Setting α}

theorem turnBy_settled {f : Fold α} {k : Nat}
    (h : ∀ id ∈ f.sources k, look id = settled (look' id)) :
    fig.turnBy setting f k look = settled (fig.turnBy setting f k look') := by
  unfold turnBy
  cases hsource : f.moving[k]? with
  | none => rfl
  | some source =>
      dsimp only
      rw [h source (by simp [Fold.sources, hsource]), h f.hinge.1 (by simp [Fold.sources]),
        h f.hinge.2 (by simp [Fold.sources])]
      cases look' source with
      | error fault => rfl
      | ok p =>
          cases look' f.hinge.1 with
          | error fault => rfl
          | ok a =>
              cases look' f.hinge.2 with
              | error fault => rfl
              | ok b =>
                  change imageBy f (p.rotate? a b _) = settled (imageBy f (p.rotate? a b _))
                  cases p.rotate? a b _ <;> rfl

theorem followBy_settled {recipe : Recipe α}
    (h : ∀ id ∈ recipe.points, look id = settled (look' id)) :
    fig.followBy setting recipe look = settled (fig.followBy setting recipe look') := by
  cases recipe with
  | vertex id =>
      unfold followBy
      dsimp only
      cases fig.vertex id <;> rfl
  | midpoint a b | ratio a b ratio => exact pairBy_settled h
  | onSegment a b param =>
      unfold followBy
      dsimp only
      cases fig.parameter? setting param with
      | none => rfl
      | some t => exact pairBy_settled h
  | center points =>
      unfold followBy
      dsimp only
      have hplaced : points.mapM look = settled (points.mapM look') := mapM_settled h
      rw [hplaced]
      cases points.mapM look' <;> rfl

theorem placeBy_settled {p : NamedPoint α} (h : ∀ id ∈ p.uses, look id = settled (look' id)) :
    fig.placeBy setting p look = settled (fig.placeBy setting p look') := by
  unfold NamedPoint.uses at h
  unfold placeBy
  cases hrecipe : p.recipe with
  | error fault => rfl
  | ok recipe =>
      rw [hrecipe] at h
      exact followBy_settled h

/-- A look-up is answered within a depth if what it asks for is answered within one less. -/
theorem locateBy_settled {look : List String → LookUp → ExceptT Fault Option (Vec α)}
    {chain : List String} {q : LookUp}
    (h : ∀ chain' r, fig.Asks (chain, q) (chain', r) →
      look chain' r = settled (fig.answer setting chain' r)) :
    fig.locateBy setting look chain q = settled (fig.answer setting chain q) := by
  rw [answer_eq]
  unfold locateBy
  cases href : fig.referent q with
  | origin | vertex v | unknown => rfl
  | turned f k => exact turnBy_settled fun id hid => h _ _ (.turned href hid)
  | declared p =>
      dsimp only
      split_ifs with hchain
      · rfl
      · exact placeBy_settled fun id hid => h _ _ (.declared href hchain hid)

/-- The answer to a look-up if it can be had within a depth, and nothing otherwise. -/
def answerWithin (fig : Figure α) (setting : Setting α) :
    Nat → List String → LookUp → ExceptT Fault Option (Vec α)
  | 0 => fun _ _ => ExceptT.mk none
  | depth + 1 => fig.locateBy setting (answerWithin fig setting depth)

theorem answerWithin_eq (fig : Figure α) (setting : Setting α) {depth : Nat}
    {chain : List String} {q : LookUp} (h : fig.depth chain q < depth) :
    fig.answerWithin setting depth chain q = settled (fig.answer setting chain q) := by
  induction depth generalizing chain q with
  | zero => exact absurd h (Nat.not_lt_zero _)
  | succ depth ih =>
      apply locateBy_settled
      intro chain' r hasks
      apply ih
      have hlt := hasks.depth_lt
      omega

end Depth

/-! ## An answer means no cycle -/

section Acyclic

variable {fig : Figure α}

theorem not_cycle_of_acc {q r : LookUp} (h : Acc (fun r q => fig.DependsOn q r) q)
    (hreach : Relation.ReflTransGen fig.DependsOn q r) :
    ¬ Relation.TransGen fig.DependsOn r r := by
  have hacc : Acc (fun r q => fig.DependsOn q r) r := by
    induction hreach with
    | refl => exact h
    | tail _ hstep ih => exact ih.inv hstep
  induction hacc with
  | intro r _ ih =>
      intro hcycle
      obtain ⟨next, hstep, hback⟩ := Relation.TransGen.head'_iff.mp hcycle
      exact ih next hstep (hreach.tail hstep) (Relation.TransGen.tail' hback hstep)

variable [Analytic α] {setting : Setting α}

/-- From a look-up that is answered the dependencies come to an end. -/
theorem acc_of_answer_eq_ok {chain : List String} {q : LookUp} {v : Vec α}
    (h : fig.answer setting chain q = .ok v) : Acc (fun r q => fig.DependsOn q r) q := by
  induction hdepth : fig.depth chain q using Nat.strongRecOn
    generalizing chain q v with
  | _ depth ih =>
      subst hdepth
      constructor
      intro r hr
      obtain ⟨chain', w, hasks, hanswer⟩ := exists_asks_of_answer_eq_ok h hr
      exact ih _ hasks.depth_lt hanswer rfl

end Acyclic

/-! ## A cyclic fault shows a cycle -/

/-- A look-up that a declared point makes, directly or for the sources of one fold. -/
inductive Leads (fig : Figure α) (x : String) : LookUp → Prop
  | direct {p : NamedPoint α} {y : String} (hx : fig.definition? x = some p)
      (hy : y ∈ p.uses) : Leads fig x ⟨true, y⟩
  | throughFold {p : NamedPoint α} {folded y : String} {f : Fold α} {k : Nat}
      (hx : fig.definition? x = some p) (hfolded : folded ∈ p.uses)
      (hturned : fig.referent ⟨true, folded⟩ = .turned f k) (hy : y ∈ f.sources k) :
      Leads fig x ⟨false, y⟩

/-- A declared point that another one is placed by, directly or through one fold. -/
def RefersTo (fig : Figure α) (x y : String) : Prop :=
  ∃ q p, fig.Leads x q ∧ fig.referent q = .declared p ∧ q.id = y

/--
A chain of declared points on the way from a look-up to another one.  Each of them is
placed by the next, and the last one leads to the look-up that has been reached.
-/
structure IsTrail (fig : Figure α) (root : LookUp) (chain : List String) (q : LookUp) :
    Prop where
  nodup : chain.Nodup
  linked : chain.IsChain fig.RefersTo
  leads : ∀ x ∈ chain.getLast?, fig.Leads x q
  reached : Relation.ReflTransGen fig.DependsOn root q
  passed : ∀ x ∈ chain, ∃ r p, r.id = x ∧ fig.referent r = .declared p ∧
    Relation.ReflTransGen fig.DependsOn root r ∧ Relation.TransGen fig.DependsOn r q

namespace IsTrail

variable {fig : Figure α} {root : LookUp} {chain : List String} {q : LookUp}

theorem start (fig : Figure α) (root : LookUp) : fig.IsTrail root [] root where
  nodup := List.nodup_nil
  linked := List.IsChain.nil
  leads := fun x hx => by cases hx
  reached := .refl
  passed := fun x hx => absurd hx List.not_mem_nil

/-- A trail that reaches a declared point goes on to that point. -/
theorem isChain_append (h : fig.IsTrail root chain q) {p : NamedPoint α}
    (href : fig.referent q = .declared p) : (chain ++ [q.id]).IsChain fig.RefersTo := by
  apply h.linked.append (List.IsChain.singleton _)
  intro x hx y hy
  cases hy
  exact ⟨q, p, h.leads x hx, href, rfl⟩

theorem asks (h : fig.IsTrail root chain q) {chain' : List String} {r : LookUp}
    (hasks : fig.Asks (chain, q) (chain', r)) : fig.IsTrail root chain' r := by
  have hstep : fig.DependsOn q r := hasks.dependsOn
  have hpassed : ∀ x ∈ chain, ∃ r' p, r'.id = x ∧ fig.referent r' = .declared p ∧
      Relation.ReflTransGen fig.DependsOn root r' ∧ Relation.TransGen fig.DependsOn r' r := by
    intro x hx
    obtain ⟨r', p, hid, href, hreach, hpath⟩ := h.passed x hx
    exact ⟨r', p, hid, href, hreach, hpath.tail hstep⟩
  cases hasks with
  | turned href hid =>
      refine ⟨h.nodup, h.linked, ?_, h.reached.tail hstep, hpassed⟩
      intro x hx
      have hfolding := (referent_eq_turned_iff.mp href).2.1
      -- a fold is reached with regard to folds, hence from the declaration itself
      cases h.leads x hx with
      | direct hx hy => exact .throughFold hx hy href hid
      | throughFold => cases hfolding
  | declared href hchain hid =>
      refine ⟨?_, h.isChain_append href, ?_, h.reached.tail hstep, ?_⟩
      · refine List.nodup_append.mpr ⟨h.nodup, List.nodup_singleton _, ?_⟩
        rintro x hx y hy rfl
        obtain rfl := List.mem_singleton.mp hy
        exact hchain hx
      · intro x hx
        rw [List.getLast?_concat] at hx
        cases hx
        exact .direct (referent_eq_declared_iff.mp href).2.2.2 hid
      · intro x hx
        rcases List.mem_append.mp hx with hx | hx
        · exact hpassed x hx
        · obtain rfl := List.mem_singleton.mp hx
          exact ⟨q, _, rfl, href, h.reached, .single hstep⟩

/-- A declared point that is reached again in its own chain depends on itself. -/
theorem cycle (h : fig.IsTrail root chain q) {p : NamedPoint α}
    (href : fig.referent q = .declared p) (hmem : q.id ∈ chain) :
    Relation.TransGen fig.DependsOn q q := by
  obtain ⟨r, p', hid, href', -, hpath⟩ := h.passed q.id hmem
  have hp : p' = p := by
    have hdef := (referent_eq_declared_iff.mp href).2.2.2
    have hdef' := (referent_eq_declared_iff.mp href').2.2.2
    rw [hid, hdef] at hdef'
    exact (Option.some_inj.mp hdef').symm
  subst hp
  -- with or without folds the same declaration has the same dependencies
  have hsame : fig.dependencies r = fig.dependencies q := by
    unfold dependencies
    rw [href, href']
  obtain ⟨next, hstep, hback⟩ := Relation.TransGen.head'_iff.mp hpath
  have hnext : fig.DependsOn q next := by
    unfold DependsOn
    rw [← hsame]
    exact hstep
  exact Relation.TransGen.head' hnext hback

end IsTrail

section Cyclic

variable [Analytic α] {fig : Figure α} {setting : Setting α} {root : LookUp}

theorem exists_isTrail_of_cyclic {chain : List String} {q : LookUp}
    (htrail : fig.IsTrail root chain q) {cycle : List String}
    (h : fig.answer setting chain q = .error (.cyclic cycle)) :
    ∃ chain' r p, fig.IsTrail root chain' r ∧ fig.referent r = .declared p ∧
      r.id ∈ chain' ∧ cycle = chain' ++ [r.id] := by
  induction hdepth : fig.depth chain q using Nat.strongRecOn generalizing chain q with
  | _ depth ih =>
      subst hdepth
      rcases answer_eq_error h with
        hfinds | ⟨p, href, hchain, hcycle⟩ | ⟨-, hunknown⟩ | ⟨chain', r, hasks, hanswer⟩
      · exact hfinds.elim
      · exact ⟨chain, q, p, htrail, href, hchain, Fault.cyclic.inj hcycle⟩
      · cases hunknown
      · exact ih _ hasks.depth_lt (htrail.asks hasks) hanswer rfl

end Cyclic

/-! ## The location of a point -/

/--
The location of a point comes to an end, within a depth that the number of declarations
bounds.  If the point is located then nothing that it depends on depends on itself.  If
a cycle is reported then all that it lists is declared, the last point is one of those
before it, which are all different, each point is placed by the next one, and something
that the point depends on does depend on itself.
-/
theorem locate_finds_cycles [Analytic α] (fig : Figure α) (setting : Setting α)
    (id : String) :
    (∀ depth, 2 * fig.model.points.length + 1 < depth →
      (fig.answerWithin setting depth [] ⟨true, id⟩).run = some (fig.locate setting id)) ∧
    (∀ v, fig.locate setting id = .ok v →
      ∀ q, Relation.ReflTransGen fig.DependsOn ⟨true, id⟩ q →
        ¬ Relation.TransGen fig.DependsOn q q) ∧
    ∀ cycle, fig.locate setting id = .error (.cyclic cycle) →
      (∀ x ∈ cycle, ∃ p, fig.definition? x = some p) ∧
      (∃ front last, cycle = front ++ [last] ∧ last ∈ front ∧ front.Nodup) ∧
      cycle.IsChain fig.RefersTo ∧
      ∃ q, Relation.ReflTransGen fig.DependsOn ⟨true, id⟩ q ∧
        Relation.TransGen fig.DependsOn q q := by
  refine ⟨?_, ?_, ?_⟩
  · intro depth hdepth
    have hbound := fig.depth_le ⟨true, id⟩
    rw [answerWithin_eq fig setting (by omega)]
    rfl
  · intro v hv q hreach
    have hanswer : fig.answer setting [] ⟨true, id⟩ = .ok v := hv
    exact not_cycle_of_acc (acc_of_answer_eq_ok hanswer) hreach
  · intro cycle hcycle
    obtain ⟨chain, q, p, htrail, href, hmem, rfl⟩ :=
      exists_isTrail_of_cyclic (IsTrail.start fig ⟨true, id⟩) hcycle
    refine ⟨?_, ⟨chain, q.id, rfl, hmem, htrail.nodup⟩, htrail.isChain_append href,
      q, htrail.reached, htrail.cycle href hmem⟩
    intro x hx
    have hpassed : x ∈ chain := by
      rcases List.mem_append.mp hx with hx | hx
      · exact hx
      · rw [List.mem_singleton.mp hx]
        exact hmem
    obtain ⟨r, p', rfl, href', -⟩ := htrail.passed x hpassed
    exact ⟨p', (referent_eq_declared_iff.mp href').2.2.2⟩

/-- A cube with two points that share a third one, and with a circle through a fold. -/
def lacedCube : Model Float where
  solid := ⟨.cube, none, none⟩
  points := [
    ⟨"N", .midpoint, some ["A", "B"], none, none, none, none, none⟩,
    ⟨"O", .midpoint, some ["N", "A"], none, none, none, none, none⟩,
    ⟨"M", .midpoint, some ["N", "O"], none, none, none, none, none⟩,
    ⟨"P", .midpoint, some ["Q'", "B"], none, none, none, none, none⟩,
    ⟨"Q", .midpoint, some ["P", "A"], none, none, none, none, none⟩]
  folds := [⟨"turn", ("A", "B"), ["Q"], ["Q'"], none, none⟩]
  measurements := []
  parameters := []

theorem locate_finds_cycles_laced :
    ∃ fig, lacedCube.figure = .ok fig ∧
      (fig.answerWithin .none 12 [] ⟨true, "P"⟩).run = some (fig.locate .none "P") ∧
      (∃ v, fig.locate .none "M" = .ok v ∧
        ¬ Relation.TransGen fig.DependsOn ⟨true, "M"⟩ ⟨true, "M"⟩) ∧
      fig.locate .none "P" = .error (.cyclic ["P", "Q", "P"]) ∧
      ["P", "Q", "P"].IsChain fig.RefersTo := by
  let fig : Figure Float := ⟨lacedCube, (lacedCube.solid.vertices?).getD .empty⟩
  obtain ⟨v, hM⟩ : ∃ v, fig.locate .none "M" = .ok v := exists_ok_of_isOk (by decide +kernel)
  have hP : fig.locate .none "P" = .error (.cyclic ["P", "Q", "P"]) := by decide +kernel
  refine ⟨fig, rfl, ?_, ⟨v, hM, ?_⟩, hP, ?_⟩
  · exact (locate_finds_cycles fig .none "P").1 12 (by decide)
  · exact (locate_finds_cycles fig .none "M").2.1 _ hM _ .refl
  · exact ((locate_finds_cycles fig .none "P").2.2 _ hP).2.2.1

end Storyboard.Figure
