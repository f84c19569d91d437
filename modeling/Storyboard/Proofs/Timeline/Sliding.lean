import Storyboard.Proofs.Figure.Passes
import Storyboard.Proofs.Figure.Standstill
import Storyboard.Proofs.Timeline.Beginning
import Storyboard.Proofs.Timeline.Channels

/-!
# Points that are driven by a parameter

A step that animates a point drives the parameter of the first declaration of its name.
A figure locates the name by its last declaration, and does so only if the name is not
the origin, not the image of another point, and not a vertex.  Where all of this comes
down to the first declaration the point is where the parameter puts it on its segment,
in every setting.  Otherwise the point is located as whatever else the name stands for,
and nothing ties it to the parameter.
-/

namespace Storyboard

variable {α : Type}

/-- The first declaration of a point that a parameter moves. -/
theorem Model.drivingParameter?_eq_some_iff {m : Model α} {p q : String} :
    m.drivingParameter? p = some q ↔
      ∃ d, m.point? p = some d ∧ d.kind = .onSegment ∧ d.param = some q := by
  unfold drivingParameter?
  cases m.point? p with
  | none => simp
  | some d => by_cases hkind : d.kind = .onSegment <;> simp [hkind]

/-- To place a point on its segment is to look up both ends, and the parameter. -/
theorem NamedPoint.recipe_eq_onSegment {d : NamedPoint α} (h : d.kind = .onSegment)
    {r : Recipe α} (hr : d.recipe = .ok r) :
    ∃ a b q, d.start = some a ∧ d.finish = some b ∧ d.param = some q ∧
      r = .onSegment a b q := by
  unfold recipe at hr
  rw [h] at hr
  dsimp only at hr
  split at hr
  next a b q ha hb hq =>
    cases hr
    exact ⟨a, b, q, ha, hb, hq, rfl⟩
  next => cases hr

namespace Figure

variable [Analytic α] {fig : Figure α} {setting : Setting α} {p : String}

/-- Where the value of a parameter puts a declared point on the way between its ends. -/
def IsDriven (fig : Figure α) (setting : Setting α) (d : NamedPoint α) (q : String)
    (v : Vec α) : Prop :=
  ∃ a b start finish t, d.start = some a ∧ d.finish = some b ∧
    fig.locate setting a = .ok start ∧ fig.locate setting b = .ok finish ∧
    fig.parameter? setting q = some t ∧ v = start + (finish - start) * t

/-- A located point that stands for a declaration is placed by points that are located alike. -/
theorem placeBy_of_locate {d : NamedPoint α} {v : Vec α}
    (href : fig.referent ⟨true, p⟩ = .declared d) (h : fig.locate setting p = .ok v) :
    fig.placeBy setting d (fig.locate setting) = .ok v := by
  have hanswer : fig.answer setting [] ⟨true, p⟩ = .ok v := h
  rw [answer_of_declared href, if_neg List.not_mem_nil] at hanswer
  have hsame : fig.SameValues setting fig setting :=
    sameValues_of_get?_eq fig (fun _ => rfl) fun _ => rfl
  rw [← hanswer]
  apply hsame.placeBy
  intro id hid
  obtain ⟨w, hw⟩ := placeBy_eq_ok hanswer id hid
  rw [hw]
  exact answer_of_subset (List.nil_subset _) hw

theorem isDriven_of_placeBy {d : NamedPoint α} {q : String} {v : Vec α}
    (hkind : d.kind = .onSegment) (hq : d.param = some q)
    (h : fig.placeBy setting d (fig.locate setting) = .ok v) : fig.IsDriven setting d q v := by
  unfold placeBy at h
  split at h
  next => cases h
  next recipe hrecipe =>
    obtain ⟨a, b, q', ha, hb, hq', rfl⟩ := NamedPoint.recipe_eq_onSegment hkind hrecipe
    obtain rfl : q' = q := Option.some_inj.mp (hq'.symm.trans hq)
    unfold followBy at h
    dsimp only at h
    split at h
    next => cases h
    next t ht =>
      obtain ⟨start, hstart, h⟩ := bind_eq_ok.mp h
      obtain ⟨finish, hfinish, h⟩ := bind_eq_ok.mp h
      exact ⟨a, b, start, finish, t, ha, hb, hstart, hfinish, ht, (Except.ok.inj h).symm⟩

/--
A step that animates a point drives the parameter of the first declaration of its name.  The
name stands for that declaration if it is the last one as well, and nothing that is no
declaration has the name.  Then the point is where the parameter puts it, in every setting
in which it is located.  Otherwise it is the origin, the image of another point, a vertex,
or placed by another declaration.
-/
theorem driven_point_follows {q : String} (hq : fig.model.drivingParameter? p = some q) :
    ∃ d, fig.model.point? p = some d ∧
      (∀ scene start finish duration,
        (Step.animatePoint p start finish duration).effect fig.model scene =
          .ok (.drive q start finish)) ∧
      (fig.referent ⟨true, p⟩ = .declared d ↔
        p ≠ centerId ∧ fig.isFolded p = false ∧ fig.vertices.get? p = none ∧
          fig.definition? p = some d) ∧
      (fig.referent ⟨true, p⟩ = .declared d → ∀ setting v, fig.locate setting p = .ok v →
        fig.IsDriven setting d q v) ∧
      (fig.referent ⟨true, p⟩ ≠ .declared d → ∀ setting v, fig.locate setting p = .ok v →
        p = centerId ∧ v = 0 ∨
        (∃ f k, fig.foldOnto? p = some (f, k) ∧
          fig.turnBy setting f k (fun id => fig.answer setting [] ⟨false, id⟩) = .ok v) ∨
        fig.vertices.get? p = some v ∨
        ∃ d', d' ≠ d ∧ fig.definition? p = some d' ∧
          fig.placeBy setting d' (fig.locate setting) = .ok v) := by
  obtain ⟨d, hd, hkind, hparam⟩ := Model.drivingParameter?_eq_some_iff.mp hq
  refine ⟨d, hd, ?_, ?_, ?_, ?_⟩
  · intro scene start finish duration
    rw [Step.effect, hq]
  · rw [referent_eq_declared_iff]
    simp [foldOnto?_eq_none_iff]
  · intro href setting v hv
    exact isDriven_of_placeBy hkind hparam (placeBy_of_locate href hv)
  · intro hother setting v hv
    have hanswer : fig.answer setting [] ⟨true, p⟩ = .ok v := hv
    cases href : fig.referent ⟨true, p⟩ with
    | origin =>
        rw [answer_eq, locateBy, href] at hanswer
        exact Or.inl ⟨referent_eq_origin_iff.mp href, (Except.ok.inj hanswer).symm⟩
    | turned f k =>
        rw [answer_of_turned href] at hanswer
        exact Or.inr (Or.inl ⟨f, k, (referent_eq_turned_iff.mp href).2.2, hanswer⟩)
    | vertex w =>
        rw [answer_eq, locateBy, href] at hanswer
        obtain rfl : w = v := Except.ok.inj hanswer
        exact Or.inr (Or.inr (Or.inl ((referent_eq_vertex_iff.mp href).2.2)))
    | declared d' =>
        refine Or.inr (Or.inr (Or.inr ⟨d', ?_, (referent_eq_declared_iff.mp href).2.2.2,
          placeBy_of_locate href hv⟩))
        rintro rfl
        exact hother href
    | unknown =>
        rw [answer_eq, locateBy, href] at hanswer
        cases hanswer

/-- A square with two declarations of a point, of which a parameter drives the first. -/
def namesakeSquare : Model Float where
  solid := ⟨.square, none, none⟩
  points := [⟨"P", .onSegment, none, some "A", some "C", none, some "t", none⟩,
    ⟨"P", .midpoint, some ["A", "B"], none, none, none, none, none⟩]
  folds := []
  measurements := []
  parameters := [⟨"t", 0, 1, 0.5⟩]

theorem driven_point_follows_sliding :
    (∃ (fig : Figure Float) (d : NamedPoint Float) (v : Vec Float),
      drivenSquare.figure = .ok fig ∧ fig.model.drivingParameter? "P" = some "t" ∧
      fig.referent ⟨true, "P"⟩ = .declared d ∧ fig.locate .none "P" = .ok v ∧
      fig.IsDriven .none d "t" v) ∧
    ∃ (fig : Figure Float) (d d' : NamedPoint Float) (v : Vec Float),
      namesakeSquare.figure = .ok fig ∧ fig.model.drivingParameter? "P" = some "t" ∧
      fig.referent ⟨true, "P"⟩ ≠ .declared d ∧ fig.locate .none "P" = .ok v ∧
      d' ≠ d ∧ fig.placeBy .none d' (fig.locate .none) = .ok v := by
  constructor
  · let fig : Figure Float := ⟨drivenSquare, (drivenSquare.solid.vertices?).getD .empty⟩
    have hq : fig.model.drivingParameter? "P" = some "t" := rfl
    obtain ⟨v, hv⟩ : ∃ v, fig.locate .none "P" = .ok v := exists_ok_of_isOk (by decide +kernel)
    obtain ⟨d, hd, -, hstands, hdriven, -⟩ := driven_point_follows hq
    have href : fig.referent ⟨true, "P"⟩ = .declared d := by
      rw [hstands]
      exact ⟨by decide, by decide, by decide +kernel, hd⟩
    exact ⟨fig, d, v, rfl, hq, href, hv, hdriven href .none v hv⟩
  · let fig : Figure Float := ⟨namesakeSquare, (namesakeSquare.solid.vertices?).getD .empty⟩
    have hq : fig.model.drivingParameter? "P" = some "t" := rfl
    obtain ⟨v, hv⟩ : ∃ v, fig.locate .none "P" = .ok v := exists_ok_of_isOk (by decide +kernel)
    obtain ⟨d, hd, -, hstands, -, hother⟩ := driven_point_follows hq
    have href : fig.referent ⟨true, "P"⟩ ≠ .declared d := by
      rw [Ne, hstands, ← hd]
      exact fun h => absurd h.2.2.2 (by decide)
    have hvertex : fig.vertices.get? "P" = none := by decide +kernel
    rcases hother href .none v hv with ⟨hcenter, -⟩ | ⟨f, k, hfold, -⟩ | hv' | ⟨d', hne, -, hplace⟩
    · exact absurd hcenter (by decide)
    · cases hfold
    · cases hvertex.symm.trans hv'
    · exact ⟨fig, d, d', v, rfl, hq, href, hv, hne, hplace⟩

/-- A point need not be where the parameter that is driven for it would put it. -/
theorem exists_point_not_driven :
    ∃ (fig : Figure Float) (d : NamedPoint Float) (v : Vec Float),
      namesakeSquare.figure = .ok fig ∧ namesakeSquare.drivingParameter? "P" = some "t" ∧
      namesakeSquare.point? "P" = some d ∧
      fig.locate ⟨.ofList [("t", 1)], .empty⟩ "P" = .ok v ∧
      ¬ fig.IsDriven ⟨.ofList [("t", 1)], .empty⟩ d "t" v := by
  let fig : Figure Float := ⟨namesakeSquare, (namesakeSquare.solid.vertices?).getD .empty⟩
  let setting : Setting Float := ⟨.ofList [("t", 1)], .empty⟩
  have hP : fig.locate setting "P" = .ok ⟨0, -0.5, 0⟩ := by decide +kernel
  have hA : fig.locate setting "A" = .ok ⟨-0.5, -0.5, 0⟩ := by decide +kernel
  have hC : fig.locate setting "C" = .ok ⟨0.5, 0.5, 0⟩ := by decide +kernel
  refine ⟨fig, _, ⟨0, -0.5, 0⟩, rfl, rfl, rfl, hP, ?_⟩
  rintro ⟨a, b, start, finish, t, ha, hb, hstart, hfinish, ht, hv⟩
  cases ha
  cases hb
  cases hA.symm.trans hstart
  cases hC.symm.trans hfinish
  have hone : fig.parameter? setting "t" = some 1 := by decide +kernel
  cases hone.symm.trans ht
  exact absurd hv (by decide +kernel)

end Figure

end Storyboard
