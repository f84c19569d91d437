import Storyboard.Preparation.Basic
import Storyboard.Proofs.Failure
import Storyboard.Proofs.Review.Repair

/-!
# What is accepted

A script settles to itself if it is without defects, and else to what its repair
leaves.  Where repairs are wanted, defects that can be mended are never a reason to
reject a script, however the new names fall upon one another.  A script that has been
prepared is settled, so that preparing it once more changes nothing.
-/

namespace Storyboard.Script

variable {α : Type}

/-! ## Reports without defects -/

section Settling

variable [Scalar α] [NumberText α] {m : Model α} {s : Script α}

theorem valid_review_iff {standards : Standards α} :
    (s.review standards m).valid = true ↔ (s.review standards m).defects = [] :=
  List.isEmpty_iff

/-- A script whose defects can all be mended has none once it is mended. -/
theorem defects_review_mended [FiniteOrder α] {standards : Standards α}
    (h : ∀ d ∈ (s.review standards m).defects, d.kind.isMendable = true) :
    (s.mended.1.review standards m).defects = [] := by
  have hold : ∀ d ∈ (s.review standards m).defects, d.kind.isMendable ≠ false := by
    intro d hd hkind
    rw [h d hd] at hkind
    cases hkind
  rw [List.eq_nil_iff_forall_not_mem]
  intro d hd
  rcases mem_review_mended hd with ⟨hkind, hmem⟩ | ⟨-, place, u, hmem, -, -⟩
  · exact hold d hmem hkind
  · -- what could not be read has a defect of its own, which no repair takes away
    have hunread : u.defect place ∈ (s.mended.1.review standards m).defects :=
      defect_mem_review hmem
    have hunreadable : (u.defect place).kind.isMendable = false := u.isMendable_defect place
    rcases mem_review_mended hunread with ⟨-, hmem⟩ | ⟨hkind | hkind, -⟩
    · exact hold _ hmem hunreadable
    · rw [hkind] at hunreadable
      cases hunreadable
    · rw [hkind] at hunreadable
      cases hunreadable

/-! ## What a script settles to -/

variable {terms : Terms α}

theorem settle_of_valid (h : (s.review terms.standards m).valid = true) :
    s.settle terms m = (s, s.review terms.standards m, []) := by
  have hnot : ¬ ((s.review terms.standards m).valid = false ∧ terms.autoRepair = true) := by
    rw [h]
    simp
  rw [settle, if_neg hnot]

/-- The report on what a script settles to is the report that comes with it. -/
theorem report_settle :
    (s.settle terms m).2.1 = (s.settle terms m).1.review terms.standards m := by
  unfold settle
  dsimp only
  split
  · split <;> rfl
  · rfl

/-- With repairs a script settles without defects if all that it has can be mended. -/
theorem valid_settle [FiniteOrder α] (hrepair : terms.autoRepair = true)
    (h : ∀ d ∈ (s.review terms.standards m).defects, d.kind.isMendable = true) :
    (s.settle terms m).2.1.valid = true := by
  cases hvalid : (s.review terms.standards m).valid with
  | true =>
      rw [settle_of_valid hvalid]
      exact hvalid
  | false =>
      have hne : (s.review terms.standards m).defects ≠ [] := by
        intro hnil
        rw [valid_review_iff.mpr hnil] at hvalid
        cases hvalid
      obtain ⟨d, hd⟩ := List.exists_mem_of_ne_nil _ hne
      have hany : (s.review terms.standards m).defects.any (fun d => d.kind.isMendable) = true :=
        List.any_eq_true.mpr ⟨d, hd, h d hd⟩
      have hscript : (s.repair (s.review terms.standards m).defects).script = some s.mended.1 := by
        rw [repair, if_pos hany]
      rw [settle, if_pos ⟨hvalid, hrepair⟩]
      dsimp only
      rw [hscript]
      exact valid_review_iff.mpr (defects_review_mended h)

end Settling

/-! ## Preparation -/

section Preparing

variable [Analytic α] [NumberText α] {terms : Terms α} {m : Model α} {s : Script α}

/-- A script is prepared by producing what it settles to, which has to be valid. -/
theorem prepare_eq_ok {prepared : Prepared α} :
    s.prepare terms m = .ok prepared ↔
      s.settle terms m = (prepared.script, prepared.report, prepared.fixes) ∧
        prepared.report.valid = true ∧
        prepared.script.produce terms.timing m = .ok prepared.production := by
  obtain ⟨script', report', fixes', production'⟩ := prepared
  rcases hsettle : s.settle terms m with ⟨script, report, fixes⟩
  simp only [prepare, hsettle]
  constructor
  · intro h
    split_ifs at h with hvalid
    split at h
    next production hproduce =>
      cases h
      exact ⟨rfl, hvalid, hproduce⟩
    next => cases h
  · rintro ⟨heq, hvalid, hproduce⟩
    cases heq
    rw [if_pos hvalid, hproduce]

theorem valid_of_rejected {defects : List (Finding Defect)}
    (h : s.prepare terms m = .error (.rejected defects)) :
    (s.settle terms m).2.1.valid = false := by
  rcases hsettle : s.settle terms m with ⟨script, report, fixes⟩
  simp only [prepare, hsettle] at h
  split_ifs at h with hvalid
  · split at h <;> cases h
  · exact Bool.eq_false_of_not_eq_true hvalid

/--
With repairs a script is not rejected if all of its defects can be mended.  On any
terms, the report on a prepared script is its review, which finds no defects, and
preparing the script once more gives the same script, report and production, without
a fix.
-/
theorem prepare_prepared [FiniteOrder α] (terms : Terms α) (m : Model α) :
    (∀ s : Script α, terms.autoRepair = true →
      (∀ d ∈ (s.review terms.standards m).defects, d.kind.isMendable = true) →
      ∀ defects, s.prepare terms m ≠ .error (.rejected defects)) ∧
    ∀ (s : Script α) (prepared : Prepared α), s.prepare terms m = .ok prepared →
      prepared.report = prepared.script.review terms.standards m ∧
      prepared.report.defects = [] ∧
      prepared.script.prepare terms m =
        .ok ⟨prepared.script, prepared.report, [], prepared.production⟩ := by
  constructor
  · intro s hrepair hmendable defects hrejected
    have hvalid := valid_settle hrepair hmendable
    rw [valid_of_rejected hrejected] at hvalid
    cases hvalid
  · intro s prepared h
    obtain ⟨hsettle, hvalid, hproduce⟩ := prepare_eq_ok.mp h
    have hreport : prepared.report = prepared.script.review terms.standards m := by
      have hsettled : (s.settle terms m).2.1 =
          (s.settle terms m).1.review terms.standards m := report_settle
      rw [hsettle] at hsettled
      exact hsettled
    have hreview : (prepared.script.review terms.standards m).valid = true := by
      rw [← hreport]
      exact hvalid
    refine ⟨hreport, ?_, ?_⟩
    · rw [hreport]
      exact valid_review_iff.mp hreview
    · refine prepare_eq_ok.mpr ⟨?_, hvalid, hproduce⟩
      rw [settle_of_valid hreview, hreport]

end Preparing

theorem prepare_prepared_unnamed :
    ∃ prepared, unnamedScript.prepare Terms.usual plainCube = .ok prepared ∧
      (unnamedScript.review Standards.usual plainCube).valid = false ∧
      prepared.script.prepare Terms.usual plainCube =
        .ok ⟨prepared.script, prepared.report, [], prepared.production⟩ ∧
      ∀ defects, unnamedScript.prepare Terms.usual plainCube ≠ .error (.rejected defects) := by
  have hok : (unnamedScript.prepare Terms.usual plainCube).isOk = true := by decide +kernel
  have hmendable : ∀ d ∈ (unnamedScript.review Standards.usual plainCube).defects,
      d.kind.isMendable = true := by decide +kernel
  have hvalid : (unnamedScript.review Standards.usual plainCube).valid = false := by
    decide +kernel
  obtain ⟨prepared, hprepared⟩ := exists_ok_of_isOk hok
  obtain ⟨haccepted, hagain⟩ := prepare_prepared (Terms.usual : Terms Float) plainCube
  exact ⟨prepared, hprepared, hvalid, (hagain _ _ hprepared).2.2,
    haccepted unnamedScript rfl hmendable⟩

end Storyboard.Script
