import Storyboard.Proofs.Number.DoubleTimes

/-!
# Differences in double precision

Finite numbers compare by their units, those below zero counted as negative.  A
difference is taken of the units and then rounded, which leaves at least one unit
where there was one, so that a number differs from whatever is below it by more than
nothing.

At the beginning of a span no part of the span has gone by.  What has gone by of a way
is then nothing, and the way is where it starts, unless the difference of its ends is
not finite.  In that case nothing is left that compares with anything.
-/

namespace Storyboard

open Float.Model Float.Model.UnpackedFloat

/-! ## Finite numbers compare by their units -/

/-- The units of a finite number, counted below zero as negative. -/
def signedUnits (s : Sign) (m : ℕ) (e : ℤ) : ℤ := s.apply (m * 2 ^ (e + 1074).toNat : ℕ)

theorem signedUnits_lt {s s' : Sign} {m m' : ℕ} {e e' : ℤ} {hpos : 0 < m} {hpos' : 0 < m'}
    (hu : IsCanonical (.finite s m e hpos)) (hv : IsCanonical (.finite s' m' e' hpos'))
    (h : (UnpackedFloat.finite s m e hpos).lt (.finite s' m' e' hpos') = true) :
    signedUnits s m e < signedUnits s' m' e' := by
  obtain ⟨hm, he, hfull⟩ := hu
  obtain ⟨hm', he', hfull'⟩ := hv
  have hnot := ((lt_iff_le_unpacked _ _).mp h).2
  have hunits : 0 < m * 2 ^ (e + 1074).toNat := by positivity
  have hunits' : 0 < m' * 2 ^ (e' + 1074).toNat := by positivity
  unfold signedUnits
  cases s <;> cases s'
  case positive.positive =>
    have hle := mt (isLE_then_compare e' e m' m).mpr hnot
    rw [lex_le_iff hm' hm he' he hfull' hfull, not_le] at hle
    exact Int.ofNat_lt.mpr hle
  case negative.negative =>
    have hle := mt (isLE_swap_then_compare e' e m' m).mpr hnot
    have hswap : (toLex (-e', -(m' : ℤ)) : ℤ ×ₗ ℤ) ≤ toLex (-e, -(m : ℤ)) ↔
        (toLex (e, (m : ℤ)) : ℤ ×ₗ ℤ) ≤ toLex (e', (m' : ℤ)) := by
      rw [Prod.Lex.toLex_le_toLex, Prod.Lex.toLex_le_toLex, neg_lt_neg_iff, neg_le_neg_iff,
        neg_inj, eq_comm]
    rw [hswap, lex_le_iff hm hm' he he' hfull hfull', not_le] at hle
    exact neg_lt_neg (Int.ofNat_lt.mpr hle)
  case negative.positive =>
    change -((m * 2 ^ (e + 1074).toNat : ℕ) : ℤ) < ((m' * 2 ^ (e' + 1074).toNat : ℕ) : ℤ)
    omega
  case positive.negative => cases h

/-! ## What is above zero -/

/-- An unpacked number above zero. -/
def IsAbove (u : UnpackedFloat) : Prop := IsAmount u ∧ size u ≠ 0

theorem IsAbove.cases {u : UnpackedFloat} (h : IsAbove u) :
    u = .infinity .positive ∨ ∃ m e, ∃ hpos : 0 < m, u = .finite .positive m e hpos := by
  obtain ⟨hamount, hsize⟩ := h
  rcases hamount.cases with h | ⟨s, rfl⟩ | h
  · exact Or.inl h
  · exact absurd (size_zero s) hsize
  · exact Or.inr h

theorem isAbove_finite {m : ℕ} {e : ℤ} (hpos : 0 < m) :
    IsAbove (.finite .positive m e hpos) := by
  have hunits : 0 < m * 2 ^ (e + 1074).toNat := by positivity
  exact ⟨trivial, hunits.ne'⟩

theorem isAbove_infinity : IsAbove (.infinity .positive) :=
  ⟨trivial, by rw [size_infinity]; unfold overflow; positivity⟩

/-- What is above zero is packed as such. -/
theorem IsAbove.pack {u : UnpackedFloat} (h : IsAbove u) (hcanonical : IsCanonical u) :
    IsAbove (Float.Model.pack u).unpack := by
  obtain ⟨hamount, hsize⟩ := unpack_pack_amount h.1 hcanonical
  have hoverflow : overflow ≠ 0 := isAbove_infinity.2
  refine ⟨hamount, ?_⟩
  rw [hsize]
  exact (lt_min (Nat.pos_of_ne_zero h.2) (Nat.pos_of_ne_zero hoverflow)).ne'

/-- Units that are there are not rounded away. -/
theorem isAbove_round {n : ℕ} {e : ℤ} (hn : n ≠ 0) (he : -1074 ≤ e) :
    IsAbove (UnpackedFloat.round Format.binary64 .positive n e) ∧
      IsCanonical (UnpackedFloat.round Format.binary64 .positive n e) := by
  obtain ⟨hcanonical, hunits⟩ := round_exact .positive hn he
  obtain ⟨hamount, hsize⟩ := isAmount_of_hasSign (hasSign_round .positive n e)
  have hone : rounded 0 (1 * 2 ^ 0) = 1 := rounded_eq_self (m := 1) (by norm_num) le_rfl
  have hpos : rounded 0 (1 * 2 ^ 0) ≤ rounded 0 (n * 2 ^ (e + 1074).toNat) :=
    rounded_mono 0 (Nat.mul_pos (Nat.pos_of_ne_zero hn) (Nat.two_pow_pos _))
  refine ⟨⟨hamount, ?_⟩, hcanonical⟩
  rw [hsize, hunits]
  omega

/-! ## What is computed is packed -/

theorem unpack_add (x y : Float) : (x + y).toModel.unpack =
    (pack (UnpackedFloat.add Format.binary64 x.toModel.unpack y.toModel.unpack)).unpack :=
  rfl

theorem unpack_sub (x y : Float) : (x - y).toModel.unpack =
    (pack (UnpackedFloat.sub Format.binary64 x.toModel.unpack y.toModel.unpack)).unpack :=
  rfl

theorem unpack_mul (x y : Float) : (x * y).toModel.unpack =
    (pack (UnpackedFloat.mul Format.binary64 x.toModel.unpack y.toModel.unpack)).unpack :=
  rfl

theorem unpack_div (x y : Float) : (x / y).toModel.unpack =
    (pack (UnpackedFloat.div Format.binary64 x.toModel.unpack y.toModel.unpack)).unpack :=
  rfl

theorem unpack_pack_notANumber : (pack .notANumber).unpack = .notANumber := rfl

/-! ## Differences -/

theorem isAbove_finite_sub_finite {s s' : Sign} {m m' : ℕ} {e e' : ℤ}
    {hpos : 0 < m} {hpos' : 0 < m'} (hcanonical : IsCanonical (.finite s m e hpos))
    (hcanonical' : IsCanonical (.finite s' m' e' hpos'))
    (h : (UnpackedFloat.finite s m e hpos).lt (.finite s' m' e' hpos') = true) :
    IsAbove (UnpackedFloat.sub Format.binary64 (.finite s' m' e' hpos') (.finite s m e hpos)) ∧
      IsCanonical
        (UnpackedFloat.sub Format.binary64 (.finite s' m' e' hpos') (.finite s m e hpos)) := by
  have hlt := signedUnits_lt hcanonical hcanonical' h
  have he := hcanonical.2.1
  have he' := hcanonical'.2.1
  obtain ⟨d, hd⟩ : ∃ d : ℤ, d = s'.apply (m' <<< (e' - min e' e).toNat : ℕ) -
      s.apply (m <<< (e - min e' e).toNat : ℕ) := ⟨_, rfl⟩
  have hsub : UnpackedFloat.sub Format.binary64 (.finite s' m' e' hpos') (.finite s m e hpos) =
      UnpackedFloat.normalize Format.binary64 d (min e' e) .positive := by
    rw [hd]
    rfl
  have hexponent : ∀ {k : ℕ} {x : ℤ}, min e' e ≤ x →
      k <<< (x - min e' e).toNat * 2 ^ (min e' e + 1074).toNat = k * 2 ^ (x + 1074).toNat := by
    intro k x hx
    rw [Nat.shiftLeft_eq, mul_assoc, ← pow_add]
    congr 2
    omega
  have hunits : d * (2 ^ (min e' e + 1074).toNat : ℕ) =
      signedUnits s' m' e' - signedUnits s m e := by
    have happly : ∀ (s : Sign) (n k : ℕ), s.apply n * (k : ℤ) = s.apply (n * k : ℕ) := by
      intro s n k
      cases s <;> simp [Sign.apply]
    rw [hd, sub_mul, happly, happly, hexponent (min_le_left _ _), hexponent (min_le_right _ _)]
    rfl
  have hdpos : 0 < d := by
    have hproduct : 0 < d * (2 ^ (min e' e + 1074).toNat : ℕ) := by
      rw [hunits]
      exact sub_pos.mpr hlt
    exact pos_of_mul_pos_left hproduct (Int.natCast_nonneg _)
  rw [hsub, normalize_of_pos _ _ hdpos]
  exact isAbove_round (by omega) (by omega)

/-- What is above a number differs from it, rounded or not. -/
theorem isAbove_sub {x y : Float} (h : x < y) : IsAbove (y - x).toModel.unpack := by
  have hcanonical := isCanonical_unpack x.toModel
  have hcanonical' := isCanonical_unpack y.toModel
  rw [float_lt_iff] at h
  have hnan := ne_of_le_unpacked ((lt_iff_le_unpacked _ _).mp h).1
  rw [unpack_sub]
  suffices hsub : IsAbove (UnpackedFloat.sub Format.binary64 y.toModel.unpack x.toModel.unpack) ∧
      IsCanonical (UnpackedFloat.sub Format.binary64 y.toModel.unpack x.toModel.unpack) from
    hsub.1.pack hsub.2
  generalize x.toModel.unpack = u at *
  generalize y.toModel.unpack = v at *
  cases u with
  | notANumber => exact absurd rfl hnan.1
  | infinity s =>
      cases v with
      | notANumber => exact absurd rfl hnan.2
      | infinity s' | zero s' | finite s' m' e' hpos' =>
          -- only the negative infinity has anything above it
          cases s <;> cases s' <;> first | exact ⟨isAbove_infinity, trivial⟩ | cases h
  | zero s =>
      cases v with
      | notANumber => exact absurd rfl hnan.2
      | infinity s' | zero s' =>
          cases s' <;> first | exact ⟨isAbove_infinity, trivial⟩ | cases h
      | finite s' m' e' hpos' =>
          cases s' with
          | positive => exact ⟨isAbove_finite hpos', hcanonical'⟩
          | negative => cases h
  | finite s m e hpos =>
      cases v with
      | notANumber => exact absurd rfl hnan.2
      | infinity s' => cases s' <;> first | exact ⟨isAbove_infinity, trivial⟩ | cases s <;> cases h
      | zero s' =>
          cases s with
          | positive => cases h
          | negative => exact ⟨isAbove_finite hpos, hcanonical⟩
      | finite s' m' e' hpos' => exact isAbove_finite_sub_finite hcanonical hcanonical' h

/-- What is above a number differs from it by more than nothing. -/
theorem not_sub_le_zero_float {x y : Float} (h : x < y) : ¬ y - x ≤ 0 := by
  have hzero : (0 : Float).toModel.unpack = .zero .positive := rfl
  rw [float_le_iff, hzero]
  rcases (isAbove_sub h).cases with hu | ⟨m, e, hpos, hu⟩
  · rw [hu]
    exact Bool.false_ne_true
  · rw [hu]
    exact Bool.false_ne_true

/-! ## Where a difference is nothing -/

theorem isZero_iff_unpack {x : Float} :
    Scalar.isZero x = true ↔ ∃ s, x.toModel.unpack = .zero s := by
  have hzero : (0 : Float).toModel.unpack = .zero .positive := rfl
  rw [Scalar.isZero, decide_eq_true_iff, float_le_iff, float_le_iff, hzero]
  cases x.toModel.unpack with
  | infinity s | finite s => cases s <;> simp [UnpackedFloat.le, UnpackedFloat.compare]
  | notANumber => simp [UnpackedFloat.le, UnpackedFloat.compare]
  | zero s => simp [UnpackedFloat.le, UnpackedFloat.compare]

theorem eq_zero_of_isZero {x : Float} (h : Scalar.isZero x = true) : x = 0 ∨ x = -0 := by
  obtain ⟨s, hs⟩ := isZero_iff_unpack.mp h
  cases s with
  | positive => exact Or.inl (congrArg Float.ofModel (unpack_injective hs))
  | negative => exact Or.inr (congrArg Float.ofModel (unpack_injective hs))

theorem le_self_unpacked {u : UnpackedFloat} (h : u ≠ .notANumber) : u.le u = true :=
  (le_iff_compareKey h h).mpr le_rfl

theorem isUndefined_iff_unpack {x : Float} :
    Scalar.isUndefined x = true ↔ x.toModel.unpack = .notANumber := by
  rw [Scalar.isUndefined, decide_eq_true_iff, float_le_iff]
  constructor
  · intro h
    by_contra hne
    exact h (le_self_unpacked hne)
  · intro h
    rw [h]
    exact Bool.false_ne_true

/-- Numbers that are not less than each other do not differ, unless they are infinite. -/
theorem sub_of_le_of_ge {x y : Float} (h : x ≤ y) (h' : y ≤ x) :
    (∃ s, x.toModel.unpack = .infinity s) ∧ (y - x).toModel.unpack = .notANumber ∨
      ∃ s, (y - x).toModel.unpack = .zero s := by
  rw [unpack_sub]
  rw [float_le_iff] at h h'
  have hnan := ne_of_le_unpacked h
  have hkeys : compareKey x.toModel.unpack = compareKey y.toModel.unpack :=
    le_antisymm ((le_iff_compareKey hnan.1 hnan.2).mp h) ((le_iff_compareKey hnan.2 hnan.1).mp h')
  generalize x.toModel.unpack = u at *
  generalize y.toModel.unpack = v at *
  cases u with
  | notANumber => exact absurd rfl hnan.1
  | infinity s =>
      cases v with
      | notANumber => exact absurd rfl hnan.2
      | infinity s' =>
          cases s <;> cases s' <;> first
            | exact Or.inl ⟨⟨_, rfl⟩, rfl⟩
            | simp [compareKey] at hkeys
      | zero s' | finite s' => cases s <;> cases s' <;> simp [compareKey] at hkeys
  | zero s =>
      cases v with
      | notANumber => exact absurd rfl hnan.2
      | infinity s' | finite s' => cases s' <;> simp [compareKey] at hkeys
      | zero s' => cases s <;> cases s' <;> exact Or.inr ⟨_, unpack_pack_zero _⟩
  | finite s m e hpos =>
      cases v with
      | notANumber => exact absurd rfl hnan.2
      | infinity s' | zero s' => cases s <;> cases s' <;> simp [compareKey] at hkeys
      | finite s' m' e' hpos' =>
          obtain ⟨rfl, rfl, rfl⟩ : s = s' ∧ e = e' ∧ m = m' := by
            cases s <;> cases s' <;> simp [compareKey] at hkeys ⊢ <;> exact hkeys
          right
          have hnone : UnpackedFloat.sub Format.binary64 (.finite s m e hpos')
              (.finite s m e hpos) = .zero .positive := by
            change UnpackedFloat.normalize Format.binary64
              (s.apply (m <<< (e - min e e).toNat : ℕ) - s.apply (m <<< (e - min e e).toNat : ℕ))
              (min e e) .positive = _
            rw [sub_self]
            rfl
          rw [hnone]
          exact ⟨_, unpack_pack_zero _⟩

theorem div_notANumber (u : UnpackedFloat) :
    UnpackedFloat.div Format.binary64 .notANumber u = .notANumber := by
  cases u <;> rfl

/-- No part of a span has gone by at its beginning, unless the quotient is undefined. -/
theorem div_sub_of_le_of_ge {p t n : Float} (h : p ≤ t) (h' : t ≤ p) (hn : p < n) :
    Scalar.isUndefined ((t - p) / (n - p)) = true ∨
      Scalar.isZero ((t - p) / (n - p)) = true := by
  rw [isUndefined_iff_unpack, isZero_iff_unpack, unpack_div]
  rcases sub_of_le_of_ge h h' with ⟨-, hnan⟩ | ⟨s, hzero⟩
  · left
    rw [hnan, div_notANumber]
    exact unpack_pack_notANumber
  · right
    rw [hzero]
    rcases (isAbove_sub hn).cases with hspan | ⟨m, e, hpos, hspan⟩
    · rw [hspan]
      exact ⟨_, unpack_pack_zero _⟩
    · rw [hspan]
      exact ⟨_, unpack_pack_zero _⟩

theorem isFinite_iff_unpack {x : Float} : Scalar.isFinite x = true ↔
    (∃ s, x.toModel.unpack = .zero s) ∨ ∃ s m e, ∃ hpos : 0 < m,
      x.toModel.unpack = .finite s m e hpos := by
  constructor
  · intro h
    have hnan := unpack_ne_of_isFinite h
    have hinfinity := unpack_ne_infinity_of_isFinite h
    rcases hx : x.toModel.unpack with s | _ | s | ⟨s, m, e, hpos⟩
    · exact absurd hx (hinfinity s)
    · exact absurd hx hnan
    · exact Or.inl ⟨s, rfl⟩
    · exact Or.inr ⟨s, m, e, hpos, rfl⟩
  · intro h
    have hnan : x.toModel.unpack ≠ .notANumber := by
      rcases h with ⟨s, h⟩ | ⟨s, m, e, hpos, h⟩ <;> rw [h] <;> exact nofun
    have hinfinity : ∀ s, x.toModel.unpack ≠ .infinity s := by
      rcases h with ⟨s, h⟩ | ⟨s, m, e, hpos, h⟩ <;> rw [h] <;> exact nofun
    have hle : x ≤ x := (float_le_iff x x).mpr (le_self_unpacked hnan)
    rcases sub_of_le_of_ge hle hle with ⟨⟨s, hs⟩, -⟩ | ⟨s, hzero⟩
    · exact absurd hs (hinfinity s)
    · rw [Scalar.isFinite, decide_eq_true_iff, float_le_iff, hzero]
      rfl

theorem sub_notANumber (u : UnpackedFloat) :
    UnpackedFloat.sub Format.binary64 u .notANumber = .notANumber := by
  cases u <;> rfl

theorem sub_infinity (u : UnpackedFloat) (s : Sign) :
    UnpackedFloat.sub Format.binary64 u (.infinity s) = .notANumber ∨
      ∃ s', UnpackedFloat.sub Format.binary64 u (.infinity s) = .infinity s' := by
  cases u with
  | notANumber => exact Or.inl rfl
  | zero | finite => exact Or.inr ⟨_, rfl⟩
  | infinity s' =>
      cases s <;> cases s' <;> first | exact Or.inl rfl | exact Or.inr ⟨_, rfl⟩

theorem isFinite_of_isFinite_sub {a b : Float} (h : Scalar.isFinite (b - a) = true) :
    Scalar.isFinite a = true := by
  have hnan := unpack_ne_of_isFinite h
  have hinfinity := unpack_ne_infinity_of_isFinite h
  rw [unpack_sub] at hnan hinfinity
  rw [isFinite_iff_unpack]
  rcases ha : a.toModel.unpack with s | _ | s | ⟨s, m, e, hpos⟩
  · rw [ha] at hnan hinfinity
    rcases sub_infinity b.toModel.unpack s with hb | ⟨s', hb⟩
    · rw [hb] at hnan
      exact absurd unpack_pack_notANumber hnan
    · rw [hb] at hinfinity
      exact absurd (unpack_pack_infinity s') (hinfinity s')
  · rw [ha, sub_notANumber] at hnan
    exact absurd unpack_pack_notANumber hnan
  · exact Or.inl ⟨s, rfl⟩
  · exact Or.inr ⟨s, m, e, hpos, rfl⟩

/-- Nothing of a finite number is nothing; of any other it is undefined. -/
theorem mul_of_isZero {z : Float} (hz : Scalar.isZero z = true) (x : Float) :
    if Scalar.isFinite x then Scalar.isZero (x * z) = true
    else Scalar.isUndefined (x * z) = true := by
  obtain ⟨s, hs⟩ := isZero_iff_unpack.mp hz
  split_ifs with h
  · rw [isZero_iff_unpack, unpack_mul, hs]
    rcases isFinite_iff_unpack.mp h with ⟨s', hx⟩ | ⟨s', m, e, hpos, hx⟩
    · rw [hx]
      exact ⟨_, unpack_pack_zero _⟩
    · rw [hx]
      exact ⟨_, unpack_pack_zero _⟩
  · rw [isUndefined_iff_unpack, unpack_mul, hs]
    rw [isFinite_iff_unpack] at h
    rcases hx : x.toModel.unpack with s' | _ | s' | ⟨s', m, e, hpos⟩
    · exact unpack_pack_notANumber
    · exact unpack_pack_notANumber
    · exact absurd (Or.inl ⟨s', hx⟩) h
    · exact absurd (Or.inr ⟨s', m, e, hpos, hx⟩) h

theorem add_of_isZero {x z : Float} (hx : Scalar.isFinite x = true)
    (hz : Scalar.isZero z = true) : x + z ≤ x ∧ x ≤ x + z := by
  obtain ⟨s, hs⟩ := isZero_iff_unpack.mp hz
  rw [float_le_iff, float_le_iff, unpack_add, hs]
  rcases isFinite_iff_unpack.mp hx with ⟨s', hx'⟩ | ⟨s', m, e, hpos, hx'⟩
  · obtain ⟨s'', hsum⟩ := zero_add_zero s' s
    rw [hx', hsum, unpack_pack_zero]
    exact ⟨rfl, rfl⟩
  · have hsum : UnpackedFloat.add Format.binary64 x.toModel.unpack (.zero s) =
        x.toModel.unpack := by
      rw [hx']
      rfl
    have hle := le_self_unpacked (unpack_ne_of_isFinite hx)
    rw [hsum, pack_unpack_model]
    exact ⟨hle, hle⟩

theorem add_of_isUndefined {y : Float} (hy : Scalar.isUndefined y = true) (x : Float) :
    Scalar.isUndefined (x + y) = true := by
  rw [isUndefined_iff_unpack] at hy ⊢
  rw [unpack_add, hy]
  cases x.toModel.unpack <;> exact unpack_pack_notANumber

/-- Where no part of a way has gone by, it is where it starts, unless its ends are too far apart. -/
theorem interpolate_of_isZero_float {a b z : Float} (hz : Scalar.isZero z = true) :
    if Scalar.isFinite (b - a) then Scalar.interpolate a b z ≤ a ∧ a ≤ Scalar.interpolate a b z
    else Scalar.isUndefined (Scalar.interpolate a b z) = true := by
  have hpart := mul_of_isZero hz (b - a)
  split_ifs at hpart ⊢ with h
  · exact add_of_isZero (isFinite_of_isFinite_sub h) hpart
  · exact add_of_isUndefined hpart a

end Storyboard
