import Storyboard.Proofs.Number.Amounts
import Storyboard.Proofs.Number.Times

/-!
# Times in double precision

What is known of amounts is carried over to the doubles that are not less than zero.
Literals and counting numbers are among these, whichever way they are read, and the
doubles are scalars that times can be told in.
-/

namespace Storyboard

open Float.Model Float.Model.UnpackedFloat

/-! ## Doubles that are not less than zero -/

/-- How many units a double has that is not less than zero. -/
def amount (x : Float) : ℕ := size x.toModel.unpack

theorem zero_le_iff {x : Float} : 0 ≤ x ↔ IsAmount x.toModel.unpack := by
  have hzero : (0 : Float).toModel.unpack = .zero .positive := rfl
  rw [float_le_iff, hzero]
  rcases x.toModel.unpack with (_ | _) | _ | _ | ⟨_ | _, m, e, hpos⟩
  · exact iff_of_false Bool.false_ne_true not_false
  · exact iff_of_true rfl trivial
  · exact iff_of_false Bool.false_ne_true not_false
  · exact iff_of_true rfl trivial
  · exact iff_of_false Bool.false_ne_true not_false
  · exact iff_of_true rfl trivial

theorem isNaN_eq_false {x : Float} (h : 0 ≤ x) : x.isNaN = false := by
  have hdefined := (zero_le_iff.mp h).ne_notANumber
  change x.toModel.unpack.isNaN = false
  rcases hx : x.toModel.unpack with s | _ | s | ⟨s, m, e, hpos⟩
  · rfl
  · exact absurd hx hdefined
  · rfl
  · rfl

/-- Doubles that are not less than zero compare by the units they have. -/
theorem le_iff_amount {x y : Float} (hx : 0 ≤ x) (hy : 0 ≤ y) : x ≤ y ↔ amount x ≤ amount y := by
  rw [float_le_iff]
  exact le_iff_size (zero_le_iff.mp hx) (zero_le_iff.mp hy)

theorem unpack_ne_infinity_of_isFinite {x : Float} (h : Scalar.isFinite x = true) (s : Sign) :
    x.toModel.unpack ≠ .infinity s := by
  intro hinfinity
  have hdifference : (x - x).toModel.unpack = .notANumber := by
    change (pack (UnpackedFloat.sub Format.binary64 x.toModel.unpack x.toModel.unpack)).unpack
      = _
    rw [hinfinity]
    cases s <;> rfl
  have hle : ((x - x).toModel.unpack.le (x - x).toModel.unpack) = true := by
    simpa [Scalar.isFinite, float_le_iff] using h
  rw [hdifference] at hle
  cases hle

theorem exists_finite {x : Float} (hpos : 0 < x)
    (hfinite : x.toModel.unpack ≠ .infinity .positive) :
    ∃ m e, ∃ h : 0 < m, x.toModel.unpack = .finite .positive m e h := by
  obtain ⟨hle, hnot⟩ := LawfulScalar.lt_iff.mp hpos
  rcases (zero_le_iff.mp hle).cases with h | ⟨s, h⟩ | h
  · exact absurd h hfinite
  · refine absurd ?_ hnot
    rw [float_le_iff, h]
    rfl
  · exact h

theorem toFloat_nonneg (n : UInt64) : 0 ≤ n.toFloat := by
  rw [zero_le_iff]
  apply isAmount_unpack_pack
  change IsAmount (UnpackedFloat.normalize Format.binary64 (n.toNat : ℤ) 0 .positive)
  by_cases hn : n.toNat = 0
  · rw [hn]
    exact trivial
  · rw [normalize_of_pos _ _ (by omega)]
    exact (isAmount_of_hasSign (hasSign_round .positive _ _)).1

theorem ofScientific_nonneg (m : ℕ) (e : ℤ) : 0 ≤ Float.ofModel (Float.Model.ofScientific m e) := by
  rw [zero_le_iff]
  apply isAmount_unpack_pack
  have hfinite : ∀ {m e} (hpos : 0 < m), IsAmount (.finite .positive m e hpos) := fun _ => trivial
  unfold UnpackedFloat.ofScientific
  split_ifs with hzero
  · exact trivial
  · exact trivial
  · exact trivial
  · exact isAmount_mul (hfinite _) _
  · exact isAmount_div (hfinite _) _

theorem mul_nonneg_float {x y : Float} (hx : 0 ≤ x) (hy : 0 < y)
    (hfinite : y.toModel.unpack ≠ .infinity .positive) : 0 ≤ x * y := by
  obtain ⟨m, e, hpos, h⟩ := exists_finite hy hfinite
  rw [zero_le_iff]
  apply isAmount_unpack_pack
  rw [h]
  exact isAmount_mul (zero_le_iff.mp hx) hpos

theorem div_nonneg_float {x y : Float} (hx : 0 ≤ x) (hy : 0 < y)
    (hfinite : y.toModel.unpack ≠ .infinity .positive) : 0 ≤ x / y := by
  obtain ⟨m, e, hpos, h⟩ := exists_finite hy hfinite
  rw [zero_le_iff]
  apply isAmount_unpack_pack
  rw [h]
  exact isAmount_div (zero_le_iff.mp hx) hpos

theorem powersOfTen_pos : ∀ i : Fin 23, 0 < Float.exactlyRepresentablePowersOfTen[i] ∧
    Scalar.isFinite Float.exactlyRepresentablePowersOfTen[i] = true := by
  decide +kernel

theorem literal_nonneg_float (m : ℕ) (s : Bool) (e : ℕ) :
    (0 : Float) ≤ OfScientific.ofScientific m s e := by
  change 0 ≤ Float.ofScientific m s e
  unfold Float.ofScientific
  split_ifs with h hs hs
  · obtain ⟨hpos, hfinite⟩ := powersOfTen_pos ⟨e, by omega⟩
    exact div_nonneg_float (toFloat_nonneg _) hpos (unpack_ne_infinity_of_isFinite hfinite _)
  · obtain ⟨hpos, hfinite⟩ := powersOfTen_pos ⟨e, by omega⟩
    exact mul_nonneg_float (toFloat_nonneg _) hpos (unpack_ne_infinity_of_isFinite hfinite _)
  · exact ofScientific_nonneg m _
  · exact ofScientific_nonneg m _

/-- The units of a sum of doubles are added up and rounded. -/
theorem amount_add {x y : Float} (hx : 0 ≤ x) (hy : 0 ≤ y) :
    0 ≤ x + y ∧ amount (x + y) = min (rounded 0 (amount x + amount y)) overflow := by
  rw [zero_le_iff]
  exact size_add (zero_le_iff.mp hx) (zero_le_iff.mp hy)

theorem add_le_add_float {x x' y y' : Float} (hx : 0 ≤ x) (hy : 0 ≤ y) (h : x ≤ x')
    (h' : y ≤ y') : x + y ≤ x' + y' := by
  have hx' : 0 ≤ x' := LawfulScalar.le_trans hx h
  have hy' : 0 ≤ y' := LawfulScalar.le_trans hy h'
  obtain ⟨hsum, hamount⟩ := amount_add hx hy
  obtain ⟨hsum', hamount'⟩ := amount_add hx' hy'
  rw [le_iff_amount hx hx'] at h
  rw [le_iff_amount hy hy'] at h'
  rw [le_iff_amount hsum hsum', hamount, hamount']
  exact min_le_min_right overflow (rounded_mono 0 (Nat.add_le_add h h'))

/-- Adding something does not make an amount smaller, rounded or not. -/
theorem le_rounded_add (x : Float) (n : ℕ) :
    amount x ≤ min (rounded 0 (amount x + n)) overflow :=
  calc
    amount x = min (rounded 0 (amount x)) overflow := by
      rw [amount, rounded_size, min_eq_left (size_unpack_le _)]
    _ ≤ min (rounded 0 (amount x + n)) overflow :=
      min_le_min_right overflow (rounded_mono 0 (Nat.le_add_right _ _))

theorem le_add_float {x y : Float} (hx : 0 ≤ x) (hy : 0 ≤ y) : x ≤ x + y := by
  obtain ⟨hsum, hamount⟩ := amount_add hx hy
  rw [le_iff_amount hx hsum, hamount]
  exact le_rounded_add _ _

theorem le_add_left_float {x y : Float} (hx : 0 ≤ x) (hy : 0 ≤ y) : y ≤ x + y := by
  obtain ⟨hsum, hamount⟩ := amount_add hx hy
  rw [le_iff_amount hy hsum, hamount, Nat.add_comm]
  exact le_rounded_add _ _

theorem sub_le_float {x y : Float} (hx : 0 ≤ x) (hy : 0 ≤ y)
    (hfinite : Scalar.isFinite y = true) : x - y ≤ x := by
  rw [float_le_iff]
  exact sub_le_model (zero_le_iff.mp hx) (zero_le_iff.mp hy)
    (unpack_ne_infinity_of_isFinite hfinite .positive)

theorem mul_le_mul_float {x x' y : Float} (hx : 0 ≤ x) (h : x ≤ x') (hy : 0 ≤ y)
    (hfinite : x'.toModel.unpack ≠ .infinity .positive)
    (hfinite' : y.toModel.unpack ≠ .infinity .positive) : 0 ≤ x * y ∧ x * y ≤ x' * y := by
  have hx' : 0 ≤ x' := LawfulScalar.le_trans hx h
  rw [float_le_iff] at h
  rw [zero_le_iff, float_le_iff]
  exact mul_le_mul_model (zero_le_iff.mp hx) (zero_le_iff.mp hx') (zero_le_iff.mp hy)
    hfinite hfinite' h

/-- Above zero there are no two doubles that are not less than each other. -/
theorem le_antisymm_float {x y : Float} (hpos : 0 < x) (h : x ≤ y) (h' : y ≤ x) : x = y := by
  have hx : 0 ≤ x := (LawfulScalar.lt_iff.mp hpos).1
  have hy : 0 ≤ y := LawfulScalar.le_trans hx h
  have hu := zero_le_iff.mp hx
  have hv := zero_le_iff.mp hy
  have hzero : ∀ s, x.toModel.unpack ≠ .zero s := by
    intro s hs
    refine (LawfulScalar.lt_iff.mp hpos).2 ?_
    rw [float_le_iff, hs]
    rfl
  rw [float_le_iff] at h h'
  have hkeys : compareKey x.toModel.unpack = compareKey y.toModel.unpack :=
    le_antisymm ((le_iff_compareKey hu.ne_notANumber hv.ne_notANumber).mp h)
      ((le_iff_compareKey hv.ne_notANumber hu.ne_notANumber).mp h')
  have hsame : x.toModel.unpack = y.toModel.unpack := hu.eq_of_compareKey_eq hv hzero hkeys
  exact congrArg Float.ofModel (unpack_injective hsame)

/-! ## Counting numbers -/

theorem toUInt64_toNat {n : ℕ} (hn : n < 2 ^ 53) : n.toUInt64.toNat = n :=
  UInt64.toNat_ofNat_of_lt' (hn.trans (by norm_num))

/-- A counting number that is turned into a double is not rounded. -/
theorem unpack_toFloat {n : ℕ} (hn : n < 2 ^ 53) (hpos : n ≠ 0) :
    ∃ m e, n.toUInt64.toFloat.toModel = pack (ofParts .positive m e) ∧
      IsCanonical (ofParts .positive m e) ∧ e < 972 ∧ 2 ^ 52 ≤ m ∧ m < 2 ^ 53 ∧ -1074 ≤ e ∧
      m * 2 ^ (e + 1074).toNat = n * 2 ^ 1074 := by
  have hmodel : n.toUInt64.toFloat.toModel =
      pack (UnpackedFloat.round Format.binary64 .positive n 0) := by
    change pack (UnpackedFloat.normalize Format.binary64 (n.toUInt64.toNat : ℤ) 0 .positive) = _
    rw [toUInt64_toNat hn, normalize_of_pos _ _ (by omega), Int.toNat_natCast]
  have hexponent : (0 + 1074 : ℤ).toNat = 1074 := rfl
  obtain ⟨hcanonical, hunits⟩ := round_exact .positive hpos (e := 0) (by norm_num)
  obtain ⟨m, e, hparts⟩ := exists_ofParts (hasSign_round .positive n 0)
  rw [hexponent, rounded_eq_self hn (Nat.zero_le _), hparts, units_ofParts] at hunits
  rw [hparts] at hcanonical hmodel
  have hm : m ≠ 0 := by
    rintro rfl
    have hzero := Nat.mul_pos (Nat.pos_of_ne_zero hpos) (Nat.two_pow_pos 1074)
    omega
  obtain ⟨hlt, he, hfull⟩ := hcanonical.bounds hm
  have hnormal : 2 ^ 52 ≤ m := by
    refine hfull.resolve_left fun hleast => ?_
    have hmany : ∀ k, 53 ≤ k → 2 ^ 53 * 2 ^ 0 ≤ n * 2 ^ k := fun k hk =>
      (Nat.pow_le_pow_right two_pos hk).trans
        (Nat.le_mul_of_pos_left _ (Nat.pos_of_ne_zero hpos))
    have hfew : m * 2 ^ (e + 1074).toNat < 2 ^ 53 * 2 ^ 0 := units_lt hlt (by omega)
    rw [hunits] at hfew
    exact (hmany 1074 (by norm_num)).not_gt hfew
  refine ⟨m, e, hmodel, hcanonical, ?_, hnormal, hlt, he, hunits⟩
  by_contra hlarge
  have hmany := le_units (k := 1074) hnormal (e := e) (by omega)
  have hfew : n * 2 ^ 1074 < 2 ^ 53 * 2 ^ 1074 := Nat.mul_lt_mul_of_pos_right hn (by positivity)
  rw [hunits] at hmany
  exact hmany.not_gt hfew

theorem mul_one_model {m : ℕ} {e : ℤ} (hlt : m < 2 ^ 53) (hnormal : 2 ^ 52 ≤ m)
    (he : -1074 ≤ e) :
    roundWithAccuracy Format.binary64 .positive (m * 2 ^ 52) (e + -52) .exact =
      ofParts .positive m e := by
  have hlog : (m * 2 ^ 52).log2 = 104 := by
    rw [log2_mul_two_pow (by positivity), (Nat.log2_eq_iff (by positivity)).mpr ⟨hnormal, hlt⟩]
  have hcut : cutOff (m * 2 ^ 52) (e + -52) = 52 := by
    rw [cutOff, hlog]
    omega
  have hexponent : e + -52 + (52 : ℕ) = e := by omega
  rw [roundWithAccuracy_eq, hcut, halfEven_mul m (by positivity), hexponent,
    shiftToTargetExponent_of_lt hlt he]

/-- A literal without a fraction is the counting number. -/
theorem natCast_eq_toFloat {n : ℕ} (hn : n < 2 ^ 53) : (n : Float) = n.toUInt64.toFloat := by
  by_cases hzero : n = 0
  · rw [hzero]
    rfl
  have hproduct : (n : Float) = n.toUInt64.toFloat * Float.exactlyRepresentablePowersOfTen[0] := by
    change Float.ofScientific n false 0 = _
    unfold Float.ofScientific
    rw [dif_pos ⟨hn, Nat.zero_le _⟩]
    rfl
  obtain ⟨m, e, hmodel, hcanonical, hsmall, hnormal, hlt, he, -⟩ := unpack_toFloat hn hzero
  have hone : Float.exactlyRepresentablePowersOfTen[0].toModel.unpack =
      .finite .positive (2 ^ 52) (-52) (by positivity) := rfl
  have hparts : ofParts .positive m e = .finite .positive m e (by omega) :=
    ofParts_of_pos .positive e (by omega)
  have hsame : (n.toUInt64.toFloat * Float.exactlyRepresentablePowersOfTen[0]).toModel =
      n.toUInt64.toFloat.toModel := by
    change pack (UnpackedFloat.mul Format.binary64 n.toUInt64.toFloat.toModel.unpack
      Float.exactlyRepresentablePowersOfTen[0].toModel.unpack) = _
    rw [hone, hmodel, unpack_pack_ofParts .positive hcanonical hsmall,
      ← mul_one_model hlt hnormal he, mul_one_model hlt hnormal he, hparts]
    exact congrArg pack ((mul_one_model hlt hnormal he).trans hparts)
  rw [hproduct]
  exact congrArg Float.ofModel hsame

theorem amount_natCast {n : ℕ} (hn : n < 2 ^ 53) : amount (n : Float) = n * 2 ^ 1074 := by
  rw [natCast_eq_toFloat hn]
  by_cases hzero : n = 0
  · rw [hzero, Nat.zero_mul]
    rfl
  obtain ⟨m, e, hmodel, hcanonical, hsmall, hnormal, -, -, hunits⟩ := unpack_toFloat hn hzero
  have hparts : ofParts .positive m e = .finite .positive m e (by omega) :=
    ofParts_of_pos .positive e (by omega)
  rw [amount, hmodel, unpack_pack_ofParts .positive hcanonical hsmall, ← hunits, hparts]
  rfl

theorem natCast_nonneg_float (n : ℕ) : 0 ≤ (n : Float) :=
  literal_nonneg_float n false 0

theorem natCast_le_float {i n : ℕ} (h : i ≤ n) (hn : n < 2 ^ 53) : (i : Float) ≤ (n : Float) := by
  rw [le_iff_amount (natCast_nonneg_float i) (natCast_nonneg_float n),
    amount_natCast (h.trans_lt hn), amount_natCast hn]
  exact Nat.mul_le_mul_right _ h

theorem natCast_pos_float {n : ℕ} (hn : n < 2 ^ 53) (hpos : 0 < n) : 0 < (n : Float) := by
  have hzero : amount 0 = 0 := rfl
  have hunits : 0 < n * 2 ^ 1074 := by positivity
  rw [LawfulScalar.lt_iff,
    le_iff_amount (natCast_nonneg_float n) LawfulScalar.zero_le_zero, amount_natCast hn, hzero]
  exact ⟨natCast_nonneg_float n, hunits.not_ge⟩

theorem natCast_ne_infinity {n : ℕ} (hn : n < 2 ^ 53) :
    (n : Float).toModel.unpack ≠ .infinity .positive := by
  rw [natCast_eq_toFloat hn]
  by_cases hzero : n = 0
  · rw [hzero]
    intro h
    cases h
  · obtain ⟨m, e, hmodel, hcanonical, hsmall, hnormal, -⟩ := unpack_toFloat hn hzero
    rw [hmodel, unpack_pack_ofParts .positive hcanonical hsmall,
      ofParts_of_pos .positive e (by omega)]
    intro h
    cases h

/-- All but one of an even number of parts of a pulse come within the pulse. -/
theorem last_part_le : ∀ n < 100,
    Scalar.isFinite ((1.5 : Float) / (2 * n + 2).toUInt64.toFloat) = true ∧
      (2 * n + 1).toUInt64.toFloat * ((1.5 : Float) / (2 * n + 2).toUInt64.toFloat) ≤ 1.5 := by
  decide +kernel

theorem part_bounds_float {i n : ℕ} (hi : i < 2 * n) (hn : n ≤ 100) :
    (0 : Float) ≤ i * (1.5 / (2 * n : ℕ)) ∧ (i : Float) * (1.5 / (2 * n : ℕ)) ≤ 1.5 := by
  obtain ⟨k, rfl⟩ : ∃ k, n = k + 1 := ⟨n - 1, by omega⟩
  have hall : 2 * k + 2 < 2 ^ 53 := by omega
  have hbut : 2 * k + 1 < 2 ^ 53 := by omega
  obtain ⟨hfinite, hlast⟩ := last_part_le k (by omega)
  rw [← natCast_eq_toFloat hall] at hfinite hlast
  rw [← natCast_eq_toFloat hbut] at hlast
  have hpart : (0 : Float) ≤ 1.5 / (2 * k + 2 : ℕ) :=
    div_nonneg_float (literal_nonneg_float 15 true 1) (natCast_pos_float hall (by omega))
      (natCast_ne_infinity hall)
  obtain ⟨hnonneg, hle⟩ := mul_le_mul_float (natCast_nonneg_float i)
    (natCast_le_float (Nat.le_of_lt_succ hi) hbut) hpart
    (natCast_ne_infinity hbut) (unpack_ne_infinity_of_isFinite hfinite _)
  exact ⟨hnonneg, LawfulScalar.le_trans hle hlast⟩

instance : TimeScalar Float where
  literal_nonneg := literal_nonneg_float
  natCast_nonneg := natCast_nonneg_float
  le_antisymm := le_antisymm_float
  le_add := le_add_float
  le_add_left := le_add_left_float
  add_le_add := add_le_add_float
  sub_le := sub_le_float
  div_nonneg := fun hx hy hfinite =>
    div_nonneg_float hx hy (unpack_ne_infinity_of_isFinite hfinite _)
  part_bounds := part_bounds_float

end Storyboard
