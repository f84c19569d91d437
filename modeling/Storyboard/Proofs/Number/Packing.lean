import Mathlib
import Storyboard.Proofs.Number.Rounding

/-!
# Packing and unpacking

A number in double precision is packed into sixty-four bits.  What is canonical and
not too large is unpacked as it was packed, and whatever is unpacked is undefined,
infinite, or canonical and not too large.  Hence the numbers from zero on are told
apart by the units they have, and they compare as these do.

That packing again gives back what was unpacked is a lemma of the library.  No single
module of Mathlib brings it, so that the library is imported as a whole here.
-/

namespace Storyboard

open Float.Model Float.Model.UnpackedFloat

/-- An unpacked number from zero on, infinity included. -/
def IsAmount : UnpackedFloat → Prop
  | .infinity .positive | .zero _ | .finite .positive _ _ _ => True
  | _ => False

/-- From so many units on a number is packed as infinity. -/
def overflow : ℕ := 2 ^ 53 * 2 ^ 2045

/-- How many units an amount has; infinity has as many as just overflow. -/
def size : UnpackedFloat → ℕ
  | .infinity _ | .notANumber => overflow
  | u => units u

/-! ## Unpacking what was packed -/

theorem unpack_pack (u : UnpackedFloat) :
    (pack u).unpack =
      UnpackedFloat.unpack Format.binary64 (UnpackedFloat.pack Format.binary64 u) :=
  rfl

theorem unpack_pack_infinity (s : Sign) : (pack (.infinity s)).unpack = .infinity s := by
  rw [unpack_pack]
  simp [UnpackedFloat.pack, packedInfinity, UnpackedFloat.unpack]

theorem unpack_pack_zero (s : Sign) : (pack (.zero s)).unpack = .zero s :=
  unpack_packedZero

theorem size_infinity (s : Sign) : size (.infinity s) = overflow := rfl

theorem size_zero (s : Sign) : size (.zero s) = 0 := rfl

theorem toNat_one_append (M : BitVec 52) : (1#1 ++ M).toNat = 2 ^ 52 + M.toNat := by
  rw [BitVec.toNat_append, ← Nat.shiftLeft_add_eq_or_of_lt M.isLt, Nat.shiftLeft_eq]
  simp

theorem unpack_packComponents_normal (s : Sign) {E : BitVec 11} (M : BitVec 52)
    (hinfinity : E ≠ -1#11) (hzero : E ≠ 0#11) :
    UnpackedFloat.unpack Format.binary64 (packComponents Format.binary64 s E M) =
      ofParts s (2 ^ 52 + M.toNat) (E.toNat - 1075) := by
  have hbias : ((Format.binary64.exponentBias : ℕ) : ℤ) = 1023 := rfl
  unfold UnpackedFloat.unpack ofParts
  simp only [unpackMantissa_packComponents, unpackExponent_packComponents,
    unpackSign_packComponents, Sign.ofBitVec_toBitVec]
  rw [if_neg hinfinity, if_neg hzero, dif_neg (by positivity)]
  simp [toNat_one_append, hbias]

theorem unpack_packComponents_subnormal (s : Sign) (M : BitVec 52) :
    UnpackedFloat.unpack Format.binary64 (packComponents Format.binary64 s 0#11 M) =
      ofParts s M.toNat (-1074) := by
  have hbias : ((Format.binary64.exponentBias : ℕ) : ℤ) = 1023 := rfl
  unfold UnpackedFloat.unpack ofParts
  simp only [unpackMantissa_packComponents, unpackExponent_packComponents,
    unpackSign_packComponents, Sign.ofBitVec_toBitVec]
  rw [if_neg (by decide), if_pos trivial]
  by_cases hM : M = 0#52
  · rw [dif_pos hM, dif_pos (by rw [hM]; rfl)]
  · have hpos : M.toNat ≠ 0 := fun h => hM (BitVec.toNat_inj.mp h)
    rw [dif_neg hM, dif_neg hpos]
    simp [hbias]

/-- What is canonical and not too large is unpacked as it was packed. -/
theorem unpack_pack_ofParts (s : Sign) {m : ℕ} {e : ℤ} (h : IsCanonical (ofParts s m e))
    (he : e < 972) : (pack (ofParts s m e)).unpack = ofParts s m e := by
  by_cases hzero : m = 0
  · rw [hzero, ofParts_zero]
    exact unpack_packedZero
  · obtain ⟨hm, hleast, hfull⟩ := h.bounds hzero
    have hbias : ((Format.binary64.exponentBias : ℕ) : ℤ) = 1023 := rfl
    have hbits : Format.binary64.mantissaBits = 53 := rfl
    have hbiased : (e + 1023 + (52 : ℕ)).toNat = (e + 1075).toNat := by omega
    conv_lhs => rw [unpack_pack, ofParts_of_pos s e (Nat.pos_of_ne_zero hzero)]
    simp only [UnpackedFloat.pack, hbias, hbits, hbiased]
    rw [if_neg (by omega)]
    by_cases hnormal : 2 ^ 52 ≤ m
    · have hlog : m.log2 = 52 := (Nat.log2_eq_iff hzero).mpr ⟨hnormal, hm⟩
      have hexponent : (BitVec.ofNat 11 (e + 1075).toNat).toNat = (e + 1075).toNat := by
        rw [BitVec.toNat_ofNat]
        omega
      have hmantissa : (BitVec.ofNat 52 m).toNat = m - 2 ^ 52 := by
        rw [BitVec.toNat_ofNat]
        omega
      have hinfinity : BitVec.ofNat 11 (e + 1075).toNat ≠ -1#11 := by
        intro heq
        have h2047 : (-1#11).toNat = 2047 := rfl
        rw [heq, h2047] at hexponent
        omega
      have hsubnormal : BitVec.ofNat 11 (e + 1075).toNat ≠ 0#11 := by
        intro heq
        have h0 : (0#11).toNat = 0 := rfl
        rw [heq, h0] at hexponent
        omega
      have hm' : 2 ^ 52 + (m - 2 ^ 52) = m := by omega
      have he' : ((e + 1075).toNat : ℤ) - 1075 = e := by omega
      rw [if_pos (by omega), unpack_packComponents_normal s _ hinfinity hsubnormal, hexponent,
        hmantissa, hm', he']
    · have hlog : m.log2 < 52 := (Nat.log2_lt hzero).mpr (Nat.lt_of_not_le hnormal)
      have hmantissa : (BitVec.ofNat 52 m).toNat = m := by
        rw [BitVec.toNat_ofNat]
        omega
      rw [if_neg (by omega), unpack_packComponents_subnormal, hmantissa,
        hfull.resolve_right hnormal]

theorem unpack_pack_ofParts_infinity (s : Sign) {m : ℕ} {e : ℤ} (hm : m ≠ 0)
    (he : 972 ≤ e) : (pack (ofParts s m e)).unpack = .infinity s := by
  have hbias : ((Format.binary64.exponentBias : ℕ) : ℤ) = 1023 := rfl
  have hlarge : 2 ^ 11 ≤ (e + 1023 + (52 : ℕ)).toNat + 1 := by omega
  rw [unpack_pack, ofParts_of_pos s e (Nat.pos_of_ne_zero hm)]
  simp only [UnpackedFloat.pack, hbias]
  rw [if_pos hlarge]
  exact unpack_pack_infinity s

/-! ## What can be unpacked -/

theorem unpack_packComponents_infinity (s : Sign) (M : BitVec 52) :
    UnpackedFloat.unpack Format.binary64 (packComponents Format.binary64 s (-1#11) M) =
      if M = 0#52 then .infinity s else .notANumber := by
  unfold UnpackedFloat.unpack
  simp only [unpackMantissa_packComponents, unpackExponent_packComponents,
    unpackSign_packComponents, Sign.ofBitVec_toBitVec]
  rw [if_pos trivial]

/-- A finite number that can be packed. -/
def IsPackable (u : UnpackedFloat) : Prop :=
  ∃ s m e, u = ofParts s m e ∧ IsCanonical u ∧ e < 972

theorem unpack_packComponents (s : Sign) (E : BitVec 11) (M : BitVec 52) :
    UnpackedFloat.unpack Format.binary64 (packComponents Format.binary64 s E M) = .notANumber ∨
      UnpackedFloat.unpack Format.binary64 (packComponents Format.binary64 s E M) = .infinity s ∨
      IsPackable
        (UnpackedFloat.unpack Format.binary64 (packComponents Format.binary64 s E M)) := by
  by_cases hinfinity : E = -1#11
  · rw [hinfinity, unpack_packComponents_infinity]
    split_ifs
    · exact Or.inr (Or.inl rfl)
    · exact Or.inl rfl
  right
  right
  have hM := M.isLt
  have hE := E.isLt
  by_cases hzero : E = 0#11
  · rw [hzero, unpack_packComponents_subnormal]
    exact ⟨s, _, _, rfl, isCanonical_ofParts s (by omega) le_rfl (Or.inl rfl), by norm_num⟩
  · have hpos : E.toNat ≠ 0 := fun h => hzero (BitVec.toNat_inj.mp h)
    have hlast : E.toNat ≠ 2047 := fun h => hinfinity (BitVec.toNat_inj.mp h)
    rw [unpack_packComponents_normal s M hinfinity hzero]
    refine ⟨s, _, _, rfl, isCanonical_ofParts s ?_ ?_ (Or.inr ?_), ?_⟩
    · omega
    · omega
    · omega
    · omega

/-- What is unpacked is undefined, infinite, or finite and as it was packed. -/
theorem unpack_cases (f : Float.Model) :
    f.unpack = .notANumber ∨ (∃ s, f.unpack = .infinity s) ∨ IsPackable f.unpack := by
  have hparts := @packComponents_unpackSign_unpackExponent_unpackMantissa Format.binary64
    f.toBits.toBitVec
  have hunpack : f.unpack = UnpackedFloat.unpack Format.binary64 f.toBits.toBitVec := rfl
  rw [hunpack, ← hparts]
  exact (unpack_packComponents _ _ _).imp_right (Or.imp_left fun h => ⟨_, h⟩)

/-- What was unpacked is packed to the same number again. -/
theorem pack_unpack_model (f : Float.Model) : pack f.unpack = f := by
  have hbits : UnpackedFloat.pack Format.binary64 f.unpack = f.toBits.toBitVec :=
    pack_unpack_of_valid f.valid
  rw [Float.Model.pack, Float.Model.mk.injEq, hbits]

theorem unpack_injective : Function.Injective Float.Model.unpack := by
  intro f g h
  rw [← pack_unpack_model f, h, pack_unpack_model g]

/-! ## Amounts compare by their size -/

theorem lt_of_exponent_lt {m m' : ℕ} {e e' : ℤ} (hm : m < 2 ^ 53) (he : -1074 ≤ e)
    (hfull : e' = -1074 ∨ 2 ^ 52 ≤ m') (h : e < e') :
    m * 2 ^ (e + 1074).toNat < m' * 2 ^ (e' + 1074).toNat := by
  have hm' : 2 ^ 52 ≤ m' := hfull.resolve_left (by omega)
  calc
    m * 2 ^ (e + 1074).toNat < 2 ^ 53 * 2 ^ (e + 1074).toNat :=
      Nat.mul_lt_mul_of_pos_right hm (by positivity)
    _ = 2 ^ 52 * 2 ^ ((e + 1074).toNat + 1) := by ring
    _ ≤ 2 ^ 52 * 2 ^ (e' + 1074).toNat :=
      Nat.mul_le_mul_left _ (Nat.pow_le_pow_right (by norm_num) (by omega))
    _ ≤ m' * 2 ^ (e' + 1074).toNat := Nat.mul_le_mul_right _ hm'

/-- Canonical numbers compare by exponent and mantissa as they do by size. -/
theorem lex_le_iff {m m' : ℕ} {e e' : ℤ} (hm : m < 2 ^ 53) (hm' : m' < 2 ^ 53)
    (he : -1074 ≤ e) (he' : -1074 ≤ e') (hfull : e = -1074 ∨ 2 ^ 52 ≤ m)
    (hfull' : e' = -1074 ∨ 2 ^ 52 ≤ m') :
    (toLex (e, (m : ℤ)) : ℤ ×ₗ ℤ) ≤ toLex (e', (m' : ℤ)) ↔
      m * 2 ^ (e + 1074).toNat ≤ m' * 2 ^ (e' + 1074).toNat := by
  rw [Prod.Lex.toLex_le_toLex]
  rcases lt_trichotomy e e' with h | rfl | h
  · exact iff_of_true (Or.inl h) (lt_of_exponent_lt hm he hfull' h).le
  · simp
  · refine iff_of_false ?_ (lt_of_exponent_lt hm' he' hfull h).not_ge
    rintro (hlt | ⟨heq, -⟩)
    · exact hlt.not_gt h
    · exact h.ne' heq

theorem IsAmount.cases {u : UnpackedFloat} (h : IsAmount u) :
    u = .infinity .positive ∨ (∃ s, u = .zero s) ∨
      ∃ m e, ∃ hpos : 0 < m, u = .finite .positive m e hpos := by
  rcases u with (_ | _) | _ | s | ⟨_ | _, m, e, hpos⟩
  · exact absurd h not_false
  · exact Or.inl rfl
  · exact absurd h not_false
  · exact Or.inr (Or.inl ⟨s, rfl⟩)
  · exact absurd h not_false
  · exact Or.inr (Or.inr ⟨m, e, hpos, rfl⟩)

theorem IsAmount.ne_notANumber {u : UnpackedFloat} (h : IsAmount u) : u ≠ .notANumber := by
  rintro rfl
  exact h

/-- Amounts other than zero are the same if they have the same key. -/
theorem IsAmount.eq_of_compareKey_eq {u v : UnpackedFloat} (hu : IsAmount u) (hv : IsAmount v)
    (hzero : ∀ s, u ≠ .zero s) (h : compareKey u = compareKey v) : u = v := by
  rcases hu.cases with rfl | ⟨s, rfl⟩ | ⟨m, e, hpos, rfl⟩
  · rcases hv.cases with rfl | ⟨s, rfl⟩ | ⟨m, e, hpos, rfl⟩
    · rfl
    · simp [compareKey] at h
    · simp [compareKey] at h
  · exact absurd rfl (hzero s)
  · rcases hv.cases with rfl | ⟨s, rfl⟩ | ⟨m', e', hpos', rfl⟩
    · simp [compareKey] at h
    · simp [compareKey] at h
    · obtain ⟨rfl, rfl⟩ : e = e' ∧ m = m' := by simpa [compareKey] using h
      rfl

theorem units_lt {m k : ℕ} {e : ℤ} (hm : m < 2 ^ 53) (he : e + 1074 ≤ k) :
    m * 2 ^ (e + 1074).toNat < 2 ^ 53 * 2 ^ k :=
  calc
    m * 2 ^ (e + 1074).toNat < 2 ^ 53 * 2 ^ (e + 1074).toNat :=
      Nat.mul_lt_mul_of_pos_right hm (by positivity)
    _ ≤ 2 ^ 53 * 2 ^ k := Nat.mul_le_mul_left _ (Nat.pow_le_pow_right (by norm_num) (by omega))

theorem le_units {m k : ℕ} {e : ℤ} (hm : 2 ^ 52 ≤ m) (he : k + 1 ≤ e + 1074) :
    2 ^ 53 * 2 ^ k ≤ m * 2 ^ (e + 1074).toNat :=
  calc
    2 ^ 53 * 2 ^ k = 2 ^ 52 * 2 ^ (k + 1) := by ring
    _ ≤ m * 2 ^ (e + 1074).toNat :=
      Nat.mul_le_mul hm (Nat.pow_le_pow_right (by norm_num) (by omega))

/-- What is unpacked is canonical. -/
theorem isCanonical_unpack (f : Float.Model) : IsCanonical f.unpack := by
  rcases unpack_cases f with h | ⟨s, h⟩ | ⟨s, m, e, -, h, -⟩
  · rw [h]
    exact trivial
  · rw [h]
    exact trivial
  · exact h

/-- What is unpacked does not overflow. -/
theorem units_unpack_lt (f : Float.Model) : units f.unpack < overflow := by
  rcases unpack_cases f with h | ⟨s, h⟩ | ⟨s, m, e, h, hcanonical, he⟩
  · rw [h]
    exact Nat.mul_pos (by positivity) (by positivity)
  · rw [h]
    exact Nat.mul_pos (by positivity) (by positivity)
  · rw [h, units_ofParts]
    by_cases hm : m = 0
    · rw [hm, Nat.zero_mul]
      exact Nat.mul_pos (by positivity) (by positivity)
    · rw [h] at hcanonical
      exact units_lt (hcanonical.bounds hm).1 (by omega)

/-- What is unpacked need not be rounded again. -/
theorem rounded_size (f : Float.Model) : rounded 0 (size f.unpack) = size f.unpack := by
  have hcanonical := isCanonical_unpack f
  generalize f.unpack = u at *
  rcases u with s | _ | s | ⟨s, m, e, hpos⟩
  · exact rounded_two_pow 2045
  · exact rounded_two_pow 2045
  · exact rounded_zero 0
  · exact rounded_eq_self hcanonical.1 (Nat.zero_le _)

theorem size_unpack_le (f : Float.Model) : size f.unpack ≤ overflow := by
  have hlt := units_unpack_lt f
  generalize f.unpack = u at *
  rcases u with s | _ | s | ⟨s, m, e, hpos⟩
  · exact le_rfl
  · exact le_rfl
  · exact hlt.le
  · exact hlt.le

/-- Amounts compare by their size. -/
theorem le_iff_size {f g : Float.Model} (hf : IsAmount f.unpack) (hg : IsAmount g.unpack) :
    f.unpack.le g.unpack = true ↔ size f.unpack ≤ size g.unpack := by
  have hcanonical := isCanonical_unpack f
  have hcanonical' := isCanonical_unpack g
  have hlt := units_unpack_lt f
  have hlt' := units_unpack_lt g
  generalize f.unpack = u at *
  generalize g.unpack = v at *
  rw [le_iff_compareKey hf.ne_notANumber hg.ne_notANumber]
  rcases hf.cases with rfl | ⟨s, rfl⟩ | ⟨m, e, hpos, rfl⟩
  · rcases hg.cases with rfl | ⟨s, rfl⟩ | ⟨m, e, hpos, rfl⟩
    · exact iff_of_true le_rfl le_rfl
    · exact iff_of_false (by simp [compareKey, Prod.Lex.toLex_le_toLex]) hlt'.not_ge
    · exact iff_of_false (by simp [compareKey, Prod.Lex.toLex_le_toLex]) hlt'.not_ge
  · refine iff_of_true ?_ (Nat.zero_le _)
    rcases hg.cases with rfl | ⟨s, rfl⟩ | ⟨m, e, hpos, rfl⟩ <;>
      simp [compareKey, Prod.Lex.toLex_le_toLex]
  · rcases hg.cases with rfl | ⟨s, rfl⟩ | ⟨m', e', hpos', rfl⟩
    · exact iff_of_true (by simp [compareKey, Prod.Lex.toLex_le_toLex]) hlt.le
    · have hsome : 0 < m * 2 ^ (e + 1074).toNat := by positivity
      exact iff_of_false (by simp [compareKey, Prod.Lex.toLex_le_toLex]) hsome.not_ge
    · obtain ⟨hm, he, hfull⟩ := hcanonical
      obtain ⟨hm', he', hfull'⟩ := hcanonical'
      have hkeys : compareKey (.finite .positive m e hpos) ≤
          compareKey (.finite .positive m' e' hpos') ↔
          (toLex (e, (m : ℤ)) : ℤ ×ₗ ℤ) ≤ toLex (e', (m' : ℤ)) := by
        simp [compareKey, Prod.Lex.toLex_le_toLex]
      exact hkeys.trans (lex_le_iff hm hm' he he' hfull hfull')

/-! ## What is packed of a result -/

theorem exists_ofParts {s : Sign} {u : UnpackedFloat} (h : HasSign s u) :
    ∃ m e, u = ofParts s m e := by
  rcases u with _ | _ | s' | ⟨s', m, e, hpos⟩
  · exact absurd h not_false
  · exact absurd h not_false
  · obtain rfl : s' = s := h
    exact ⟨0, 0, rfl⟩
  · obtain rfl : s' = s := h
    exact ⟨m, e, (ofParts_of_pos s' e hpos).symm⟩

theorem isAmount_of_hasSign {u : UnpackedFloat} (h : HasSign .positive u) :
    IsAmount u ∧ size u = units u := by
  obtain ⟨m, e, rfl⟩ := exists_ofParts h
  rcases m.eq_zero_or_pos with rfl | hpos
  · rw [ofParts_zero]
    exact ⟨trivial, rfl⟩
  · rw [ofParts_of_pos _ _ hpos]
    exact ⟨trivial, rfl⟩

/-- An amount has as many units once it is packed, unless it overflows. -/
theorem unpack_pack_amount {u : UnpackedFloat} (h : IsAmount u) (hcanonical : IsCanonical u) :
    IsAmount (pack u).unpack ∧ size (pack u).unpack = min (size u) overflow := by
  rcases h.cases with rfl | ⟨s, rfl⟩ | ⟨m, e, hpos, rfl⟩
  · rw [unpack_pack_infinity]
    exact ⟨trivial, (min_self _).symm⟩
  · rw [unpack_pack_zero]
    exact ⟨trivial, (Nat.zero_min _).symm⟩
  · have hparts : UnpackedFloat.finite .positive m e hpos = ofParts .positive m e :=
      (ofParts_of_pos .positive e hpos).symm
    have hsize : size (.finite .positive m e hpos) = m * 2 ^ (e + 1074).toNat := rfl
    obtain ⟨hm, he, hfull⟩ := id hcanonical
    rw [hsize]
    by_cases hsmall : e < 972
    · have hunits : m * 2 ^ (e + 1074).toNat < overflow := units_lt hm (by omega)
      rw [hparts] at hcanonical ⊢
      rw [unpack_pack_ofParts .positive hcanonical hsmall, min_eq_left hunits.le, ← hparts]
      exact ⟨trivial, rfl⟩
    · have hunits : overflow ≤ m * 2 ^ (e + 1074).toNat :=
        le_units (hfull.resolve_left (by omega)) (by omega)
      rw [hparts, unpack_pack_ofParts_infinity .positive hpos.ne' (by omega), min_eq_right hunits]
      exact ⟨trivial, rfl⟩

end Storyboard
