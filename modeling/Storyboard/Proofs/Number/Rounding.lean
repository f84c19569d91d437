import Mathlib.Tactic.NormNum
import Mathlib.Tactic.Positivity
import Mathlib.Tactic.Ring
import Mathlib.Tactic.SplitIfs
import Storyboard.Proofs.Number.Order

/-!
# Rounding in double precision

The numbers from zero on are multiples of one unit, the smallest number above zero.
Counted in units a sum is rounded as a natural number: to fifty-three binary digits,
half way to an even last digit, and to infinity where the exponent runs out.  A
product is counted in smaller units and is rounded to whole units as well.

Rounding natural numbers in this way keeps their order, and leaves alone what has no
more than fifty-three digits.  Both facts carry over to sums and products.
-/

namespace Storyboard

open Float.Model Float.Model.UnpackedFloat

/-! ## Rounding natural numbers -/

/-- A quotient rounded to the nearest natural number, half way to an even one. -/
def halfEven (n d : ℕ) : ℕ :=
  if 2 * (n % d) < d then n / d
  else if 2 * (n % d) = d then n / d + n / d % 2
  else n / d + 1

theorem halfEven_mul (q : ℕ) {d : ℕ} (hd : 0 < d) : halfEven (q * d) d = q := by
  rw [halfEven, Nat.mul_mod_left, if_pos (by omega), Nat.mul_div_cancel q hd]

theorem halfEven_mono {n n' : ℕ} (d : ℕ) (h : n ≤ n') : halfEven n d ≤ halfEven n' d := by
  have hdiv : n / d ≤ n' / d := Nat.div_le_div_right h
  have hn := Nat.div_add_mod n d
  have hn' := Nat.div_add_mod n' d
  rcases hdiv.lt_or_eq with hlt | heq
  · have hup : halfEven n d ≤ n / d + 1 := by
      unfold halfEven
      split_ifs <;> omega
    have hdown : n' / d ≤ halfEven n' d := by
      unfold halfEven
      split_ifs <;> omega
    omega
  · rw [heq] at hn
    have hmod : n % d ≤ n' % d := by omega
    unfold halfEven
    rw [heq]
    split_ifs <;> omega

theorem halfEven_le {n q d : ℕ} (hd : 0 < d) (h : n ≤ q * d) : halfEven n d ≤ q :=
  (halfEven_mono d h).trans_eq (halfEven_mul q hd)

theorem le_halfEven {n q d : ℕ} (hd : 0 < d) (h : q * d ≤ n) : q ≤ halfEven n d :=
  (halfEven_mul q hd).symm.trans_le (halfEven_mono d h)

theorem halfEven_mul_mul (n d : ℕ) {c : ℕ} (hc : 0 < c) :
    halfEven (n * c) (d * c) = halfEven n d := by
  have hlt : 2 * (n % d * c) < d * c ↔ 2 * (n % d) < d := by
    rw [← mul_assoc]
    exact Nat.mul_lt_mul_right hc
  have heq : 2 * (n % d * c) = d * c ↔ 2 * (n % d) = d := by
    rw [← mul_assoc]
    exact Nat.mul_left_inj hc.ne'
  simp only [halfEven, Nat.mul_mod_mul_right, Nat.mul_div_mul_right n d hc, hlt, heq]

/-- How many binary digits of a number are cut off to leave fifty-three, but not less than `g`. -/
def cut (g n : ℕ) : ℕ := max (n.log2 - 52) g

/-- A number rounded to fifty-three binary digits, and to a multiple of the `g`-th power of two. -/
def rounded (g n : ℕ) : ℕ := halfEven n (2 ^ cut g n) * 2 ^ cut g n

theorem lt_two_pow_cut (g n : ℕ) : n < 2 ^ 53 * 2 ^ cut g n := by
  have hlog : n < 2 ^ (n.log2 + 1) := Nat.lt_log2_self
  have hcut : n.log2 + 1 ≤ 53 + cut g n := by
    unfold cut
    omega
  calc
    n < 2 ^ (n.log2 + 1) := hlog
    _ ≤ 2 ^ (53 + cut g n) := Nat.pow_le_pow_right (by norm_num) hcut
    _ = 2 ^ 53 * 2 ^ cut g n := pow_add 2 53 _

theorem halfEven_cut_le (g n : ℕ) : halfEven n (2 ^ cut g n) ≤ 2 ^ 53 :=
  halfEven_le (by positivity) (lt_two_pow_cut g n).le

theorem cut_mono (g : ℕ) {n n' : ℕ} (h : n ≤ n') : cut g n ≤ cut g n' := by
  have hlog : n.log2 ≤ n'.log2 := by
    rw [Nat.log2_eq_log_two, Nat.log2_eq_log_two]
    exact Nat.log_mono_right h
  unfold cut
  omega

/-- Rounding keeps the order of numbers. -/
theorem rounded_mono (g : ℕ) {n n' : ℕ} (h : n ≤ n') : rounded g n ≤ rounded g n' := by
  rcases (cut_mono g h).lt_or_eq with hlt | heq
  · -- the larger number has more digits, and the power of two between them is rounded to itself
    have hcut : cut g n' = n'.log2 - 52 := by
      unfold cut at hlt ⊢
      omega
    have hpow : 2 ^ 52 * 2 ^ cut g n' ≤ n' := by
      rw [hcut, ← pow_add]
      have hn' : n' ≠ 0 := by
        rintro rfl
        rw [hcut] at hlt
        simp at hlt
      refine (Nat.pow_le_pow_right (by norm_num) ?_).trans (Nat.log2_self_le hn')
      rw [hcut] at hlt
      omega
    calc
      rounded g n ≤ 2 ^ 53 * 2 ^ cut g n := Nat.mul_le_mul_right _ (halfEven_cut_le g n)
      _ = 2 ^ 52 * 2 ^ (cut g n + 1) := by ring
      _ ≤ 2 ^ 52 * 2 ^ cut g n' :=
        Nat.mul_le_mul_left _ (Nat.pow_le_pow_right (by norm_num) hlt)
      _ ≤ rounded g n' :=
        Nat.mul_le_mul_right _ (le_halfEven (by positivity) hpow)
  · unfold rounded
    rw [heq]
    exact Nat.mul_le_mul_right _ (halfEven_mono _ h)

/-- What has no more than fifty-three digits is left alone. -/
theorem rounded_eq_self {g m k : ℕ} (hm : m < 2 ^ 53) (hk : g ≤ k) :
    rounded g (m * 2 ^ k) = m * 2 ^ k := by
  have hcut : cut g (m * 2 ^ k) ≤ k := by
    have hlog : (m * 2 ^ k).log2 < 53 + k := by
      by_cases hzero : m * 2 ^ k = 0
      · rw [hzero]
        simp
      · rw [Nat.log2_lt hzero, pow_add]
        exact Nat.mul_lt_mul_of_pos_right hm (by positivity)
    unfold cut
    omega
  have hsplit : m * 2 ^ k = m * 2 ^ (k - cut g (m * 2 ^ k)) * 2 ^ cut g (m * 2 ^ k) := by
    rw [mul_assoc, ← pow_add, Nat.sub_add_cancel hcut]
  have hexact : halfEven (m * 2 ^ k) (2 ^ cut g (m * 2 ^ k)) =
      m * 2 ^ (k - cut g (m * 2 ^ k)) := by
    conv_lhs => arg 1; rw [hsplit]
    exact halfEven_mul _ (by positivity)
  rw [rounded, hexact, ← hsplit]

theorem rounded_zero (g : ℕ) : rounded g 0 = 0 := by
  simp [rounded, halfEven]

theorem rounded_two_pow (k : ℕ) : rounded 0 (2 ^ 53 * 2 ^ k) = 2 ^ 53 * 2 ^ k := by
  have hsplit : 2 ^ 53 * 2 ^ k = 2 ^ 52 * 2 ^ (k + 1) := by ring
  rw [hsplit]
  exact rounded_eq_self (by norm_num) (Nat.zero_le _)

/-! ## Cutting off digits -/

/-- A mantissa with its two residual bits tells how a quotient is to be rounded. -/
def Tells (em : ExtendedMantissa) (n d : ℕ) : Prop :=
  match em.roundBit, em.stickyBit with
  | false, false => n = em.mantissa * d
  | false, true => em.mantissa * d < n ∧ 2 * n < (2 * em.mantissa + 1) * d
  | true, false => 2 * n = (2 * em.mantissa + 1) * d
  | true, true => (2 * em.mantissa + 1) * d < 2 * n ∧ n < (em.mantissa + 1) * d

theorem tells_shiftRightOne {em : ExtendedMantissa} {n d : ℕ} (hd : 0 < d)
    (h : Tells em n d) : Tells em.shiftRightOne n (2 * d) := by
  obtain ⟨m, r, s⟩ := em
  have hparts : m * d = 2 * (m / 2 * d) + m % 2 * d := by
    calc
      m * d = (2 * (m / 2) + m % 2) * d := by rw [Nat.div_add_mod]
      _ = 2 * (m / 2 * d) + m % 2 * d := by ring
  -- all products in multiples of the same two
  have hfloor : m / 2 * (2 * d) = 2 * (m / 2 * d) := by ring
  have hmiddle : (2 * (m / 2) + 1) * (2 * d) = 4 * (m / 2 * d) + 2 * d := by ring
  have hceil : (m / 2 + 1) * (2 * d) = 2 * (m / 2 * d) + 2 * d := by ring
  have hmiddle' : (2 * m + 1) * d = 2 * (m * d) + d := by ring
  have hceil' : (m + 1) * d = m * d + d := by ring
  have hodd : (1 != 0) = true := rfl
  rcases Nat.mod_two_eq_zero_or_one m with hm | hm <;> rw [hm] at hparts <;>
    cases r <;> cases s <;>
    simp only [Tells, ExtendedMantissa.shiftRightOne, hm, hodd, hfloor, hmiddle, hceil,
      hmiddle', hceil', bne_self_eq_false, Bool.or_self, Bool.or_true, Bool.true_or] at h ⊢ <;>
    omega

theorem tells_shiftRight (m n : ℕ) :
    Tells (ExtendedMantissa.ofMantissaAndAccuracy m .exact >>> n) m (2 ^ n) := by
  change Tells (n.repeat ExtendedMantissa.shiftRightOne _) m (2 ^ n)
  induction n with
  | zero => simp [Tells, ExtendedMantissa.ofMantissaAndAccuracy, Nat.repeat]
  | succ n ih =>
      rw [Nat.repeat, pow_succ']
      exact tells_shiftRightOne (by positivity) ih

theorem roundedMantissa_of_tells {em : ExtendedMantissa} {n d : ℕ} (hd : 0 < d)
    (h : Tells em n d) : em.roundedMantissa = halfEven n d := by
  obtain ⟨m, r, s⟩ := em
  have hmod := Nat.div_add_mod n d
  have hlt := Nat.mod_lt n hd
  have hquotient : n / d = m := by
    refine Nat.div_eq_of_lt_le ?_ ?_ <;> cases r <;> cases s <;>
      simp only [Tells, add_mul, mul_assoc, one_mul] at h ⊢ <;> omega
  rw [hquotient, mul_comm] at hmod
  unfold halfEven
  rw [hquotient]
  cases r <;> cases s <;>
    simp only [Tells, add_mul, mul_assoc, one_mul] at h <;>
    simp only [ExtendedMantissa.roundedMantissa, ExtendedMantissa.accuracy,
      Accuracy.roundToNearestEven] <;>
    split_ifs <;> omega

/-! ## Rounding in double precision -/

/-- How many units an unpacked number is away from zero. -/
def units : UnpackedFloat → ℕ
  | .finite _ m e _ => m * 2 ^ (e + 1074).toNat
  | _ => 0

/-- A mantissa has fifty-three digits, or fewer where the exponent is the least one. -/
def IsCanonical : UnpackedFloat → Prop
  | .finite _ m e _ => m < 2 ^ 53 ∧ -1074 ≤ e ∧ (e = -1074 ∨ 2 ^ 52 ≤ m)
  | _ => True

/-- A number that is not infinite and has a sign. -/
def HasSign (s : Sign) : UnpackedFloat → Prop
  | .zero s' | .finite s' _ _ _ => s' = s
  | _ => False

/-- The unpacked number with a sign, a mantissa and an exponent. -/
def ofParts (s : Sign) (m : ℕ) (e : ℤ) : UnpackedFloat :=
  if h : m = 0 then .zero s else .finite s m e (Nat.pos_of_ne_zero h)

theorem ofParts_zero (s : Sign) (e : ℤ) : ofParts s 0 e = .zero s :=
  dif_pos rfl

theorem ofParts_of_pos (s : Sign) {m : ℕ} (e : ℤ) (hpos : 0 < m) :
    ofParts s m e = .finite s m e hpos :=
  dif_neg hpos.ne'

theorem hasSign_ofParts (s : Sign) (m : ℕ) (e : ℤ) : HasSign s (ofParts s m e) := by
  rcases m.eq_zero_or_pos with rfl | hpos
  · rw [ofParts_zero]
    exact rfl
  · rw [ofParts_of_pos s e hpos]
    exact rfl

theorem units_ofParts (s : Sign) (m : ℕ) (e : ℤ) :
    units (ofParts s m e) = m * 2 ^ (e + 1074).toNat := by
  rcases m.eq_zero_or_pos with rfl | hpos
  · rw [ofParts_zero, Nat.zero_mul]
    rfl
  · rw [ofParts_of_pos s e hpos]
    rfl

theorem isCanonical_ofParts (s : Sign) {m : ℕ} {e : ℤ} (hm : m < 2 ^ 53) (he : -1074 ≤ e)
    (h : e = -1074 ∨ 2 ^ 52 ≤ m) : IsCanonical (ofParts s m e) := by
  rcases m.eq_zero_or_pos with rfl | hpos
  · rw [ofParts_zero]
    exact trivial
  · rw [ofParts_of_pos s e hpos]
    exact ⟨hm, he, h⟩

theorem IsCanonical.bounds {s : Sign} {m : ℕ} {e : ℤ} (h : IsCanonical (ofParts s m e))
    (hm : m ≠ 0) : m < 2 ^ 53 ∧ -1074 ≤ e ∧ (e = -1074 ∨ 2 ^ 52 ≤ m) := by
  rw [ofParts_of_pos s e (Nat.pos_of_ne_zero hm)] at h
  exact h

theorem hasSign_roundWithAccuracy (s : Sign) (m : ℕ) (e : ℤ) (accuracy : Accuracy) :
    HasSign s (roundWithAccuracy Format.binary64 s m e accuracy) :=
  hasSign_ofParts s _ _

/-- How many digits of a mantissa are cut off to bring it to its target exponent. -/
def cutOff (m : ℕ) (e : ℤ) : ℕ := (max (m.log2 + 1 + e - 53) (-1074) - e).toNat

theorem shiftToTargetExponent_eq (m : ℕ) (e : ℤ) :
    shiftToTargetExponent Format.binary64 m e .exact =
      (ExtendedMantissa.ofMantissaAndAccuracy m .exact >>> cutOff m e, e + cutOff m e) :=
  rfl

theorem shiftToTargetExponent_of_lt {m : ℕ} {e : ℤ} (hm : m < 2 ^ 53) (he : -1074 ≤ e) :
    shiftToTargetExponent Format.binary64 m e .exact = (⟨m, false, false⟩, e) := by
  have hlog : m.log2 < 53 := by
    by_cases hzero : m = 0
    · rw [hzero]
      decide
    · exact (Nat.log2_lt hzero).mpr hm
  have hcut : cutOff m e = 0 := by
    unfold cutOff
    omega
  rw [shiftToTargetExponent_eq, hcut]
  exact Prod.ext rfl (add_zero e)

theorem shiftToTargetExponent_two_pow {e : ℤ} (he : -1074 ≤ e) :
    shiftToTargetExponent Format.binary64 (2 ^ 53) e .exact = (⟨2 ^ 52, false, false⟩, e + 1) := by
  have hcut : cutOff (2 ^ 53) e = 1 := by
    rw [cutOff, Nat.log2_two_pow]
    omega
  rw [shiftToTargetExponent_eq, hcut]
  rfl

/-- Rounding cuts off digits twice, and the second time only if rounding has added one. -/
theorem roundWithAccuracy_eq (s : Sign) (m : ℕ) (e : ℤ) :
    roundWithAccuracy Format.binary64 s m e .exact =
      ofParts s
        (shiftToTargetExponent Format.binary64 (halfEven m (2 ^ cutOff m e)) (e + cutOff m e)
          .exact).1.mantissa
        (shiftToTargetExponent Format.binary64 (halfEven m (2 ^ cutOff m e)) (e + cutOff m e)
          .exact).2 := by
  rw [← roundedMantissa_of_tells (by positivity) (tells_shiftRight m (cutOff m e))]
  rfl

theorem log2_mul_two_pow {m : ℕ} (hm : m ≠ 0) (k : ℕ) : (m * 2 ^ k).log2 = m.log2 + k := by
  rw [Nat.log2_eq_iff (by positivity), pow_add, add_right_comm, pow_add]
  constructor
  · exact Nat.mul_le_mul_right _ (Nat.log2_self_le hm)
  · exact Nat.mul_lt_mul_of_pos_right Nat.lt_log2_self (by positivity)

theorem cut_eq {m : ℕ} {e : ℤ} {g : ℕ} (hlow : -1074 - g ≤ e)
    (hhigh : e ≤ max (m.log2 + 1 + e - 53) (-1074)) :
    cut g (m * 2 ^ (e + 1074 + g).toNat) = cutOff m e + (e + 1074 + g).toNat := by
  unfold cut cutOff
  by_cases hm : m = 0
  · rw [hm, Nat.zero_mul, Nat.log2_zero]
    rw [hm, Nat.log2_zero] at hhigh
    omega
  · rw [log2_mul_two_pow hm]
    omega

/-- What is rounded to a mantissa is large enough for it, or has the least exponent. -/
theorem le_halfEven_cutOff {m : ℕ} {e : ℤ} (hhigh : e ≤ max (m.log2 + 1 + e - 53) (-1074)) :
    e + cutOff m e = -1074 ∨ 2 ^ 52 ≤ halfEven m (2 ^ cutOff m e) := by
  by_cases hleast : e + cutOff m e = -1074
  · exact Or.inl hleast
  · right
    have hcut : 52 + cutOff m e = m.log2 := by
      unfold cutOff at hleast ⊢
      omega
    have hm : m ≠ 0 := by
      rintro rfl
      rw [Nat.log2_zero] at hcut
      omega
    apply le_halfEven (by positivity)
    calc
      2 ^ 52 * 2 ^ cutOff m e = 2 ^ m.log2 := by rw [← pow_add, hcut]
      _ ≤ m := Nat.log2_self_le hm

/-- An exact number is rounded to fifty-three digits, and to whole units. -/
theorem roundWithAccuracy_exact (s : Sign) {m : ℕ} {e : ℤ} {g : ℕ} (hlow : -1074 - g ≤ e)
    (hhigh : e ≤ max (m.log2 + 1 + e - 53) (-1074)) :
    IsCanonical (roundWithAccuracy Format.binary64 s m e .exact) ∧
      units (roundWithAccuracy Format.binary64 s m e .exact) * 2 ^ g =
        rounded g (m * 2 ^ (e + 1074 + g).toNat) := by
  have hcut := cut_eq hlow hhigh
  have hdigits : halfEven (m * 2 ^ (e + 1074 + g).toNat)
      (2 ^ cut g (m * 2 ^ (e + 1074 + g).toNat)) = halfEven m (2 ^ cutOff m e) := by
    rw [hcut, pow_add, halfEven_mul_mul _ _ (by positivity)]
  have hle := halfEven_cut_le g (m * 2 ^ (e + 1074 + g).toNat)
  have hfull := le_halfEven_cutOff hhigh
  have hmin : -1074 ≤ e + cutOff m e := by
    unfold cutOff
    omega
  have hexponent : cutOff m e + (e + 1074 + g).toNat = (e + cutOff m e + 1074).toNat + g := by
    omega
  rw [roundWithAccuracy_eq, rounded, hdigits, hcut, hexponent]
  rw [hdigits] at hle
  generalize halfEven m (2 ^ cutOff m e) = r at hle hfull
  rcases hle.lt_or_eq with hlt | rfl
  · rw [shiftToTargetExponent_of_lt hlt hmin, units_ofParts]
    refine ⟨isCanonical_ofParts s hlt hmin hfull, ?_⟩
    rw [pow_add, mul_assoc]
  · rw [shiftToTargetExponent_two_pow hmin, units_ofParts]
    refine ⟨isCanonical_ofParts s (by norm_num) (by omega) (Or.inr le_rfl), ?_⟩
    have hnext : (e + cutOff m e + 1 + 1074).toNat = (e + cutOff m e + 1074).toNat + 1 := by
      omega
    rw [hnext]
    ring

theorem hasSign_round (s : Sign) (m : ℕ) (e : ℤ) :
    HasSign s (UnpackedFloat.round Format.binary64 s m e) :=
  hasSign_roundWithAccuracy s _ _ _

/-- Whole units are rounded to fifty-three digits. -/
theorem round_exact (s : Sign) {m : ℕ} {e : ℤ} (hm : m ≠ 0) (he : -1074 ≤ e) :
    IsCanonical (UnpackedFloat.round Format.binary64 s m e) ∧
      units (UnpackedFloat.round Format.binary64 s m e) =
        rounded 0 (m * 2 ^ (e + 1074).toNat) := by
  -- the exponent is decreased first, which does not change the number
  obtain ⟨n, hn⟩ : ∃ n : ℕ, n = (e - max (m.log2 + 1 + e - 53) (-1074)).toNat := ⟨_, rfl⟩
  have hround : UnpackedFloat.round Format.binary64 s m e =
      roundWithAccuracy Format.binary64 s (m * 2 ^ n) (e - n) .exact := by
    rw [hn, ← Nat.shiftLeft_eq]
    rfl
  have hlog := log2_mul_two_pow hm n
  have hexact := roundWithAccuracy_exact s (m := m * 2 ^ n) (e := e - n) (g := 0)
    (by omega) (by omega)
  have hsame : m * 2 ^ n * 2 ^ (e - n + 1074 + (0 : ℕ)).toNat = m * 2 ^ (e + 1074).toNat := by
    rw [mul_assoc, ← pow_add]
    congr 2
    omega
  rw [hsame, pow_zero, mul_one] at hexact
  rw [hround]
  exact hexact

end Storyboard
