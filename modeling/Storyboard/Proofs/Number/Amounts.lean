import Storyboard.Proofs.Number.Packing

/-!
# Arithmetic of amounts

The units of two amounts are added or multiplied as natural numbers, and the result is
rounded; where it overflows it is infinite.  Since rounding keeps the order, sums and
products do so, too.  A difference is not larger than what it is taken from, which
need not be rounded any more.
-/

namespace Storyboard

open Float.Model Float.Model.UnpackedFloat

/-! ## Sums -/

theorem normalize_of_pos (s : Sign) (e : ℤ) {n : ℤ} (hn : 0 < n) :
    UnpackedFloat.normalize Format.binary64 n e s =
      UnpackedFloat.round Format.binary64 .positive n.toNat e := by
  unfold UnpackedFloat.normalize
  rw [compare_gt_iff_gt.mpr hn]

theorem rounded_of_overflow_le {n : ℕ} (h : overflow ≤ n) :
    min (rounded 0 n) overflow = overflow :=
  min_eq_right ((rounded_two_pow 2045).symm.trans_le (rounded_mono 0 h))

theorem infinity_add {v : UnpackedFloat} (hv : IsAmount v) :
    UnpackedFloat.add Format.binary64 (.infinity .positive) v = .infinity .positive := by
  rcases hv.cases with rfl | ⟨s, rfl⟩ | ⟨m, e, hpos, rfl⟩ <;> rfl

theorem add_infinity {u : UnpackedFloat} (hu : IsAmount u) :
    UnpackedFloat.add Format.binary64 u (.infinity .positive) = .infinity .positive := by
  rcases hu.cases with rfl | ⟨s, rfl⟩ | ⟨m, e, hpos, rfl⟩ <;> rfl

theorem zero_add_zero (s s' : Sign) :
    ∃ s'', UnpackedFloat.add Format.binary64 (.zero s) (.zero s') = .zero s'' := by
  cases s <;> cases s' <;> exact ⟨_, rfl⟩

/-- Two finite amounts are brought to the smaller exponent, added up, and rounded. -/
theorem finite_add_finite {m m' : ℕ} {e e' : ℤ} (hpos : 0 < m) (hpos' : 0 < m') :
    UnpackedFloat.add Format.binary64 (.finite .positive m e hpos) (.finite .positive m' e' hpos') =
      UnpackedFloat.round Format.binary64 .positive
        (m * 2 ^ (e - min e e').toNat + m' * 2 ^ (e' - min e e').toNat) (min e e') := by
  rw [← Nat.shiftLeft_eq, ← Nat.shiftLeft_eq]
  have hsum : (0 : ℤ) < ((m <<< (e - min e e').toNat + m' <<< (e' - min e e').toNat : ℕ) : ℤ) := by
    rw [Nat.shiftLeft_eq, Nat.shiftLeft_eq]
    positivity
  exact normalize_of_pos .positive (min e e') hsum

theorem size_finite_add_finite {m m' : ℕ} {e e' : ℤ} (hpos : 0 < m) (hpos' : 0 < m')
    (he : -1074 ≤ e) (he' : -1074 ≤ e') :
    ∃ u, UnpackedFloat.add Format.binary64 (.finite .positive m e hpos)
        (.finite .positive m' e' hpos') = u ∧ IsAmount u ∧ IsCanonical u ∧
      size u = rounded 0 (m * 2 ^ (e + 1074).toNat + m' * 2 ^ (e' + 1074).toNat) := by
  have hpositive : m * 2 ^ (e - min e e').toNat + m' * 2 ^ (e' - min e e').toNat ≠ 0 := by
    positivity
  obtain ⟨hcanonical, hexact⟩ := round_exact .positive hpositive (e := min e e') (by omega)
  have hunits :
      (m * 2 ^ (e - min e e').toNat + m' * 2 ^ (e' - min e e').toNat) *
          2 ^ (min e e' + 1074).toNat =
        m * 2 ^ (e + 1074).toNat + m' * 2 ^ (e' + 1074).toNat := by
    rw [add_mul, mul_assoc, mul_assoc, ← pow_add, ← pow_add]
    congr 3
    · omega
    · omega
  obtain ⟨hamount, hsize⟩ := isAmount_of_hasSign (hasSign_round .positive _ _)
  rw [hunits] at hexact
  exact ⟨_, finite_add_finite hpos hpos', hamount, hcanonical, hsize.trans hexact⟩

/-- The units of a sum are added up and rounded. -/
theorem size_add {f g : Float.Model} (hf : IsAmount f.unpack) (hg : IsAmount g.unpack) :
    IsAmount (f + g).unpack ∧
      size (f + g).unpack = min (rounded 0 (size f.unpack + size g.unpack)) overflow := by
  change IsAmount (pack (UnpackedFloat.add Format.binary64 f.unpack g.unpack)).unpack ∧
    size (pack (UnpackedFloat.add Format.binary64 f.unpack g.unpack)).unpack = _
  have hsize := rounded_size f
  have hsize' := rounded_size g
  have hle := size_unpack_le f
  have hle' := size_unpack_le g
  rcases hf.cases with hu | ⟨s, hu⟩ | ⟨m, e, hpos, hu⟩
  · rw [hu, infinity_add hg, unpack_pack_infinity, size_infinity,
      rounded_of_overflow_le (Nat.le_add_right _ _)]
    exact ⟨trivial, rfl⟩
  · rcases hg.cases with hv | ⟨s', hv⟩ | ⟨m', e', hpos', hv⟩
    · rw [hv, add_infinity hf, unpack_pack_infinity, size_infinity,
        rounded_of_overflow_le (Nat.le_add_left _ _)]
      exact ⟨trivial, rfl⟩
    · obtain ⟨s'', hsum⟩ := zero_add_zero s s'
      rw [hu, hv, hsum, unpack_pack_zero, size_zero, size_zero, size_zero, rounded_zero,
        Nat.zero_min]
      exact ⟨trivial, rfl⟩
    · have hsum : UnpackedFloat.add Format.binary64 (.zero s) (.finite .positive m' e' hpos') =
          .finite .positive m' e' hpos' := rfl
      rw [hu, hv, hsum, ← hv, pack_unpack_model, size_zero, Nat.zero_add, hsize', min_eq_left hle']
      exact ⟨hg, rfl⟩
  · rcases hg.cases with hv | ⟨s', hv⟩ | ⟨m', e', hpos', hv⟩
    · rw [hv, add_infinity hf, unpack_pack_infinity, size_infinity,
        rounded_of_overflow_le (Nat.le_add_left _ _)]
      exact ⟨trivial, rfl⟩
    · have hsum : UnpackedFloat.add Format.binary64 (.finite .positive m e hpos) (.zero s') =
          .finite .positive m e hpos := rfl
      rw [hu, hv, hsum, ← hu, pack_unpack_model, size_zero, Nat.add_zero, hsize, min_eq_left hle]
      exact ⟨hf, rfl⟩
    · have hcanonical := isCanonical_unpack f
      have hcanonical' := isCanonical_unpack g
      rw [hu] at hcanonical ⊢
      rw [hv] at hcanonical' ⊢
      obtain ⟨u, hsum, hamount, hround, hunits⟩ :=
        size_finite_add_finite hpos hpos' hcanonical.2.1 hcanonical'.2.1
      obtain ⟨hpacked, hsize⟩ := unpack_pack_amount hamount hround
      rw [hsum]
      rw [hunits] at hsize
      exact ⟨hpacked, hsize⟩

/-! ## Differences -/

theorem le_self {u : UnpackedFloat} (hu : IsAmount u) : u.le u = true :=
  (le_iff_compareKey hu.ne_notANumber hu.ne_notANumber).mpr le_rfl

/-- What is rounded to a number that is not above zero is not larger than any amount. -/
theorem unpack_pack_le {u v : UnpackedFloat} (hsign : HasSign .negative u)
    (hcanonical : IsCanonical u) (hv : IsAmount v) : (pack u).unpack.le v = true := by
  obtain ⟨m, e, rfl⟩ := exists_ofParts hsign
  by_cases hm : m = 0
  · have hzero : ofParts .negative m e = .zero .negative := by rw [hm, ofParts_zero]
    rw [hzero, unpack_pack_zero]
    rcases hv.cases with rfl | ⟨s, rfl⟩ | ⟨m, e, hpos, rfl⟩ <;> rfl
  by_cases he : e < 972
  · rw [unpack_pack_ofParts .negative hcanonical he,
      ofParts_of_pos .negative e (Nat.pos_of_ne_zero hm)]
    rcases hv.cases with rfl | ⟨s, rfl⟩ | ⟨m, e, hpos, rfl⟩ <;> rfl
  · rw [unpack_pack_ofParts_infinity .negative hm (by omega)]
    rcases hv.cases with rfl | ⟨s, rfl⟩ | ⟨m, e, hpos, rfl⟩ <;> rfl

theorem normalize_of_neg (s : Sign) (e : ℤ) {n : ℤ} (hn : n < 0) :
    UnpackedFloat.normalize Format.binary64 n e s =
      UnpackedFloat.round Format.binary64 .negative (-n).toNat e := by
  unfold UnpackedFloat.normalize
  rw [compare_lt_iff_lt.mpr hn]

/-- A finite amount that is taken away does not make an amount larger. -/
theorem finite_sub_finite_le {f : Float.Model} {m m' : ℕ} {e e' : ℤ} {hpos : 0 < m}
    (hpos' : 0 < m') (hf : f.unpack = .finite .positive m e hpos) (he' : -1074 ≤ e') :
    (pack (UnpackedFloat.sub Format.binary64 f.unpack
      (.finite .positive m' e' hpos'))).unpack.le f.unpack = true := by
  have hcanonical := isCanonical_unpack f
  rw [hf] at hcanonical
  obtain ⟨-, he, -⟩ := hcanonical
  have hamount : IsAmount f.unpack := by
    rw [hf]
    exact trivial
  obtain ⟨d, hd⟩ : ∃ d : ℤ, d = (m <<< (e - min e e').toNat : ℕ) -
      (m' <<< (e' - min e e').toNat : ℕ) := ⟨_, rfl⟩
  have hsub : UnpackedFloat.sub Format.binary64 f.unpack (.finite .positive m' e' hpos') =
      UnpackedFloat.normalize Format.binary64 d (min e e') .positive := by
    rw [hf, hd]
    rfl
  rw [hsub]
  rcases lt_trichotomy d 0 with hlt | heq | hgt
  · rw [normalize_of_neg _ _ hlt]
    exact unpack_pack_le (hasSign_round .negative _ _)
      (round_exact .negative (by omega) (by omega)).1 hamount
  · rw [heq]
    change (pack (.zero .positive)).unpack.le f.unpack = true
    rw [unpack_pack_zero]
    rcases hamount.cases with h | ⟨s, h⟩ | ⟨m, e, hpos, h⟩ <;> rw [h] <;> rfl
  · obtain ⟨hround, hunits⟩ :=
      round_exact .positive (m := d.toNat) (e := min e e') (by omega) (by omega)
    obtain ⟨hpositive, hsize'⟩ := isAmount_of_hasSign
      (hasSign_round .positive d.toNat (min e e'))
    obtain ⟨hpacked, hsize⟩ := unpack_pack_amount hpositive hround
    have hless : d.toNat * 2 ^ (min e e' + 1074).toNat ≤ size f.unpack := by
      have hd' : d.toNat ≤ m * 2 ^ (e - min e e').toNat := by
        rw [hd, Int.toNat_sub, Nat.shiftLeft_eq]
        exact Nat.sub_le _ _
      calc
        d.toNat * 2 ^ (min e e' + 1074).toNat
            ≤ m * 2 ^ (e - min e e').toNat * 2 ^ (min e e' + 1074).toNat :=
          Nat.mul_le_mul_right _ hd'
        _ = m * 2 ^ (e + 1074).toNat := by
          rw [mul_assoc, ← pow_add]
          congr 2
          omega
        _ = size f.unpack := by
          rw [hf]
          rfl
    rw [normalize_of_pos _ _ hgt, le_iff_size hpacked hamount, hsize, hsize', hunits]
    calc
      min (rounded 0 (d.toNat * 2 ^ (min e e' + 1074).toNat)) overflow
          ≤ rounded 0 (d.toNat * 2 ^ (min e e' + 1074).toNat) := min_le_left _ _
      _ ≤ rounded 0 (size f.unpack) := rounded_mono 0 hless
      _ = size f.unpack := rounded_size f

theorem sub_le_model {f g : Float.Model} (hf : IsAmount f.unpack) (hg : IsAmount g.unpack)
    (hfinite : g.unpack ≠ .infinity .positive) : (f - g).unpack.le f.unpack = true := by
  change (pack (UnpackedFloat.sub Format.binary64 f.unpack g.unpack)).unpack.le f.unpack = true
  rcases hg.cases.resolve_left hfinite with ⟨s', hv⟩ | ⟨m', e', hpos', hv⟩
  · rcases hf.cases with hu | ⟨s, hu⟩ | ⟨m, e, hpos, hu⟩
    · rw [hu, hv]
      change (pack (.infinity .positive)).unpack.le (.infinity .positive) = true
      rw [unpack_pack_infinity]
      rfl
    · have hzero : ∃ s'', UnpackedFloat.sub Format.binary64 (.zero s) (.zero s') = .zero s'' := by
        cases s <;> cases s' <;> exact ⟨_, rfl⟩
      obtain ⟨s'', hsub⟩ := hzero
      rw [hu, hv, hsub, unpack_pack_zero]
      rfl
    · rw [hu, hv]
      change (pack (.finite .positive m e hpos)).unpack.le (.finite .positive m e hpos) = true
      rw [← hu, pack_unpack_model]
      exact le_self hf
  · have hcanonical := isCanonical_unpack g
    rw [hv] at hcanonical
    rcases hf.cases with hu | ⟨s, hu⟩ | ⟨m, e, hpos, hu⟩
    · rw [hu, hv]
      change (pack (.infinity .positive)).unpack.le (.infinity .positive) = true
      rw [unpack_pack_infinity]
      rfl
    · rw [hv]
      have hsub : UnpackedFloat.sub Format.binary64 f.unpack (.finite .positive m' e' hpos') =
          .finite .negative m' e' hpos' := by
        rw [hu]
        rfl
      rw [hsub]
      exact unpack_pack_le rfl hcanonical hf
    · rw [hv]
      exact finite_sub_finite_le hpos' hu hcanonical.2.1

/-! ## Products and quotients -/

/-- The units of a product are multiplied, and rounded to whole units. -/
theorem size_finite_mul_finite {m m' : ℕ} {e e' : ℤ} (hpos : 0 < m) (hpos' : 0 < m')
    (he : -1074 ≤ e) (he' : -1074 ≤ e') (hfull : e = -1074 ∨ 2 ^ 52 ≤ m)
    (hfull' : e' = -1074 ∨ 2 ^ 52 ≤ m') :
    ∃ u, UnpackedFloat.mul Format.binary64 (.finite .positive m e hpos)
        (.finite .positive m' e' hpos') = u ∧ IsAmount u ∧ IsCanonical u ∧
      size u * 2 ^ 1074 =
        rounded 1074 (m * 2 ^ (e + 1074).toNat * (m' * 2 ^ (e' + 1074).toNat)) := by
  have hmul : UnpackedFloat.mul Format.binary64 (.finite .positive m e hpos)
      (.finite .positive m' e' hpos') =
        roundWithAccuracy Format.binary64 .positive (m * m') (e + e') .exact := rfl
  obtain ⟨hamount, hsize⟩ := isAmount_of_hasSign
    (hasSign_roundWithAccuracy .positive (m * m') (e + e') .exact)
  have hproduct : m * m' ≠ 0 := (Nat.mul_pos hpos hpos').ne'
  have hlog : e + e' ≤ max ((m * m').log2 + 1 + (e + e') - 53) (-1074) := by
    -- two subnormal numbers leave nothing, and a normal one has digits enough
    by_cases hleast : e = -1074 ∧ e' = -1074
    · omega
    · have hlarge : 2 ^ 52 ≤ m * m' := by
        rcases hfull with h | h
        · have h' := hfull'.resolve_left fun h' => hleast ⟨h, h'⟩
          exact h'.trans (Nat.le_mul_of_pos_left m' hpos)
        · exact h.trans (Nat.le_mul_of_pos_right m hpos')
      have hdigits : 52 ≤ (m * m').log2 := (Nat.le_log2 hproduct).mpr hlarge
      omega
  obtain ⟨hcanonical, hexact⟩ :=
    roundWithAccuracy_exact .positive (m := m * m') (e := e + e') (g := 1074) (by omega) hlog
  have hexponents : (e + e' + 1074 + (1074 : ℕ)).toNat = (e + 1074).toNat + (e' + 1074).toNat := by
    omega
  refine ⟨_, hmul, hamount, hcanonical, ?_⟩
  rw [hsize, hexact, hexponents, pow_add, mul_mul_mul_comm]

/-- The units of a product of finite amounts are multiplied and rounded. -/
theorem size_mul {f g : Float.Model} (hf : IsAmount f.unpack) (hg : IsAmount g.unpack)
    (hfinite : f.unpack ≠ .infinity .positive) (hfinite' : g.unpack ≠ .infinity .positive) :
    ∃ u, UnpackedFloat.mul Format.binary64 f.unpack g.unpack = u ∧ IsAmount u ∧ IsCanonical u ∧
      size u * 2 ^ 1074 = rounded 1074 (size f.unpack * size g.unpack) := by
  have hnone : ∀ s, size (.zero s) * 2 ^ 1074 = rounded 1074 0 := by
    intro s
    rw [size_zero, Nat.zero_mul, rounded_zero]
  rcases hf.cases.resolve_left hfinite with ⟨s, hu⟩ | ⟨m, e, hpos, hu⟩
  · rw [hu, size_zero, Nat.zero_mul]
    rcases hg.cases.resolve_left hfinite' with ⟨s', hv⟩ | ⟨m', e', hpos', hv⟩
    · rw [hv]
      exact ⟨_, rfl, trivial, trivial, hnone _⟩
    · rw [hv]
      exact ⟨_, rfl, trivial, trivial, hnone _⟩
  · rcases hg.cases.resolve_left hfinite' with ⟨s', hv⟩ | ⟨m', e', hpos', hv⟩
    · rw [hu, hv, size_zero, Nat.mul_zero]
      exact ⟨_, rfl, trivial, trivial, hnone _⟩
    · have hcanonical := isCanonical_unpack f
      have hcanonical' := isCanonical_unpack g
      rw [hu] at hcanonical ⊢
      rw [hv] at hcanonical' ⊢
      exact size_finite_mul_finite hpos hpos' hcanonical.2.1 hcanonical'.2.1
        hcanonical.2.2 hcanonical'.2.2

/-- Where the first factor has not more units, the product has not more either. -/
theorem mul_le_mul_model {f f' g : Float.Model} (hf : IsAmount f.unpack) (hf' : IsAmount f'.unpack)
    (hg : IsAmount g.unpack) (hfinite : f'.unpack ≠ .infinity .positive)
    (hfinite' : g.unpack ≠ .infinity .positive) (h : f.unpack.le f'.unpack = true) :
    IsAmount (f * g).unpack ∧ (f * g).unpack.le (f' * g).unpack = true := by
  have hfinite'' : f.unpack ≠ .infinity .positive := by
    intro hu
    rw [hu] at h
    rcases hf'.cases.resolve_left hfinite with ⟨s, hv⟩ | ⟨m, e, hpos, hv⟩
    · rw [hv] at h
      cases h
    · rw [hv] at h
      cases h
  rw [le_iff_size hf hf'] at h
  obtain ⟨u, hmul, hu, hcanonical, hsize⟩ := size_mul hf hg hfinite'' hfinite'
  obtain ⟨v, hmul', hv, hcanonical', hsize'⟩ := size_mul hf' hg hfinite hfinite'
  have hpack : f * g = pack u := congrArg pack hmul
  have hpack' : f' * g = pack v := congrArg pack hmul'
  obtain ⟨hamount, hpacked⟩ := unpack_pack_amount hu hcanonical
  obtain ⟨hamount', hpacked'⟩ := unpack_pack_amount hv hcanonical'
  have hrounded : size u * 2 ^ 1074 ≤ size v * 2 ^ 1074 := by
    rw [hsize, hsize']
    exact rounded_mono 1074 (Nat.mul_le_mul_right _ h)
  have hle : size u ≤ size v := Nat.le_of_mul_le_mul_right hrounded (pow_pos two_pos _)
  rw [hpack, hpack', le_iff_size hamount hamount', hpacked, hpacked']
  exact ⟨hamount, min_le_min_right overflow hle⟩

/-- An amount stays one when it is packed, canonical or not. -/
theorem isAmount_unpack_pack {u : UnpackedFloat} (h : IsAmount u) : IsAmount (pack u).unpack := by
  rcases h.cases with rfl | ⟨s, rfl⟩ | ⟨m, e, hpos, rfl⟩
  · rw [unpack_pack_infinity]
    exact trivial
  · rw [unpack_pack_zero]
    exact trivial
  · have hparts : ∀ m e, IsAmount (ofParts .positive m e) := fun m e =>
      (isAmount_of_hasSign (hasSign_ofParts .positive m e)).1
    rw [unpack_pack]
    simp only [UnpackedFloat.pack]
    split_ifs with hlarge hbits
    · have hinfinity := unpack_pack_infinity .positive
      rw [unpack_pack] at hinfinity
      exact (congrArg IsAmount hinfinity).mpr trivial
    · generalize (e + (Format.binary64.exponentBias : ℤ) + (52 : ℕ)).toNat = k at hlarge
      have hlast : BitVec.ofNat 11 k ≠ -1#11 := by
        intro heq
        have hk := congrArg BitVec.toNat heq
        have h2047 : (-1#11).toNat = 2047 := rfl
        rw [BitVec.toNat_ofNat, h2047] at hk
        omega
      by_cases hzero : BitVec.ofNat 11 k = 0#11
      · rw [hzero, unpack_packComponents_subnormal]
        exact hparts _ _
      · rw [unpack_packComponents_normal .positive _ hlast hzero]
        exact hparts _ _
    · rw [unpack_packComponents_subnormal]
      exact hparts _ _

theorem isAmount_mul {u : UnpackedFloat} (hu : IsAmount u) {m : ℕ} {e : ℤ} (hpos : 0 < m) :
    IsAmount (UnpackedFloat.mul Format.binary64 u (.finite .positive m e hpos)) := by
  rcases hu.cases with rfl | ⟨s, rfl⟩ | ⟨m', e', hpos', rfl⟩
  · exact trivial
  · exact trivial
  · exact (isAmount_of_hasSign (hasSign_roundWithAccuracy .positive _ _ _)).1

theorem isAmount_div {u : UnpackedFloat} (hu : IsAmount u) {m : ℕ} {e : ℤ} (hpos : 0 < m) :
    IsAmount (UnpackedFloat.div Format.binary64 u (.finite .positive m e hpos)) := by
  rcases hu.cases with rfl | ⟨s, rfl⟩ | ⟨m', e', hpos', rfl⟩
  · exact trivial
  · exact trivial
  · exact (isAmount_of_hasSign (hasSign_roundWithAccuracy .positive _ _ _)).1

end Storyboard
