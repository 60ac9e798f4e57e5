import Mathlib.Algebra.Order.Field.Power
import Mathlib.Algebra.Order.Floor.Semifield
import Mathlib.Data.Int.Log
import Mathlib.Data.Rat.Floor
import Mathlib.Tactic.FieldSimp
import Mathlib.Tactic.Linarith
import Mathlib.Tactic.Positivity
import Mathlib.Tactic.Ring
/-!
# Binary64 — rounding an exact number

Arithmetic on floating-point numbers is exact arithmetic followed by one
rounding. This file says what the rounding is, on nonnegative rationals:
`nearest` rounds to a natural number, `encoded` to fifty-three significant
binary digits, and `rounded` is the value that comes out. The main
statement is `roundWithAccuracy_eq`: shifting a significand with its round
and sticky bits computes `encoded` of the number they locate. Everything
else that is said about floating-point numbers is read off `rounded`,
which is monotone and leaves in place what it can represent.
-/

namespace DocCoverage

namespace Binary64

open Float.Model Float.Model.UnpackedFloat

/-! ## The nearest natural number -/

/-- What a number has behind its natural part. -/
def rest (x : ℚ) : ℚ := x - ⌊x⌋₊

/-- The nearest natural number; of two equally near ones the even one. -/
def nearest (x : ℚ) : ℕ :=
  if 2 * rest x < 1 then ⌊x⌋₊
  else if 2 * rest x = 1 then ⌊x⌋₊ + ⌊x⌋₊ % 2
  else ⌊x⌋₊ + 1

theorem rest_nonneg {x : ℚ} (hx : 0 ≤ x) : 0 ≤ rest x :=
  sub_nonneg.mpr (Nat.floor_le hx)

theorem rest_lt_one (x : ℚ) : rest x < 1 := by
  have := Nat.lt_floor_add_one x
  unfold rest
  linarith

@[simp] theorem rest_natCast (n : ℕ) : rest n = 0 := by simp [rest]

@[simp] theorem nearest_natCast (n : ℕ) : nearest n = n := by simp [nearest]

theorem floor_le_nearest (x : ℚ) : ⌊x⌋₊ ≤ nearest x := by
  unfold nearest
  split_ifs <;> omega

theorem nearest_le_floor (x : ℚ) : nearest x ≤ ⌊x⌋₊ + 1 := by
  unfold nearest
  split_ifs <;> omega

/-- **Rounding is monotone.** Two numbers with the same natural part are
told apart by what is behind it; otherwise a natural number lies between
their roundings. -/
theorem nearest_mono {x y : ℚ} (h : x ≤ y) : nearest x ≤ nearest y := by
  rcases (Nat.floor_mono h).eq_or_lt with heq | hlt
  · have hrest : rest x ≤ rest y := by unfold rest; rw [heq]; linarith
    unfold nearest
    rw [heq]
    split_ifs with hx₁ hx₂ hy₁ hy₂ <;> first | omega | exact absurd hrest (by grind)
  · calc nearest x ≤ ⌊x⌋₊ + 1 := nearest_le_floor x
      _ ≤ ⌊y⌋₊ := hlt
      _ ≤ nearest y := floor_le_nearest y

theorem nearest_le_of_le {x : ℚ} {n : ℕ} (h : x ≤ n) : nearest x ≤ n := by
  simpa using nearest_mono h

theorem le_nearest_of_le {x : ℚ} {n : ℕ} (h : (n : ℚ) ≤ x) : n ≤ nearest x := by
  simpa using nearest_mono h

/-! ## Significands with a round and a sticky bit -/

/-- The significand that locates a number: its natural part, whether at
least a half is behind it, and whether that is neither nothing nor a
half. -/
def located (x : ℚ) : ExtendedMantissa where
  mantissa := ⌊x⌋₊
  roundBit := decide (1 ≤ 2 * rest x)
  stickyBit := decide (rest x ≠ 0 ∧ 2 * rest x ≠ 1)

/-- The two bits are enough to round. -/
theorem roundedMantissa_located (x : ℚ) : (located x).roundedMantissa = nearest x := by
  unfold ExtendedMantissa.roundedMantissa ExtendedMantissa.accuracy located nearest
  rcases lt_trichotomy (2 * rest x) 1 with h | h | h
  · by_cases h0 : rest x = 0
    · simp [h0, show ¬ (1 : ℚ) ≤ 0 by norm_num, Accuracy.roundToNearestEven]
    · simp [h, h.ne, h0, not_le.mpr h, Accuracy.roundToNearestEven]
  · have h0 : rest x ≠ 0 := by intro h'; rw [h'] at h; norm_num at h
    simp [h, h0, Accuracy.roundToNearestEven]
  · have h0 : rest x ≠ 0 := by intro h'; rw [h'] at h; norm_num at h
    simp [h.le, h.ne', h0, not_lt.mpr h.le, Accuracy.roundToNearestEven]

/-- Shifting by one halves the number that is located. -/
theorem shiftRightOne_located {x : ℚ} (hx : 0 ≤ x) :
    (located x).shiftRightOne = located (x / 2) := by
  have hfloor : ⌊x / 2⌋₊ = ⌊x⌋₊ / 2 := by exact_mod_cast Nat.floor_div_natCast x 2
  have hsplit : (⌊x⌋₊ : ℚ) = 2 * (⌊x⌋₊ / 2 : ℕ) + (⌊x⌋₊ % 2 : ℕ) := by
    exact_mod_cast (Nat.div_add_mod ⌊x⌋₊ 2).symm
  have hhalf : 2 * rest (x / 2) = (⌊x⌋₊ % 2 : ℕ) + rest x := by
    unfold rest
    rw [hfloor]
    linarith
  have h0 := rest_nonneg hx
  have h1 := rest_lt_one x
  -- the digit shifted out becomes the round bit, and the old round bit joins the sticky one
  have hround : (⌊x⌋₊ % 2 != 0) = decide (1 ≤ 2 * rest (x / 2)) := by
    rw [hhalf, Bool.eq_iff_iff, bne_iff_ne, decide_eq_true_iff]
    rcases Nat.mod_two_eq_zero_or_one ⌊x⌋₊ with hb | hb <;> rw [hb]
    · simp [h1]
    · simp [h0]
  have hsticky : (decide (1 ≤ 2 * rest x) || decide (rest x ≠ 0 ∧ 2 * rest x ≠ 1)) =
      decide (rest (x / 2) ≠ 0 ∧ 2 * rest (x / 2) ≠ 1) := by
    have hzero : rest (x / 2) = 0 ↔ 2 * rest (x / 2) = 0 := by simp
    rw [Bool.eq_iff_iff, Bool.or_eq_true, decide_eq_true_iff, decide_eq_true_iff,
      decide_eq_true_iff, Ne.eq_def (rest (x / 2)), hzero, hhalf]
    rcases Nat.mod_two_eq_zero_or_one ⌊x⌋₊ with hb | hb <;> rw [hb] <;> push_cast <;> grind
  unfold ExtendedMantissa.shiftRightOne
  simp only [located, hfloor, ExtendedMantissa.mk.injEq, true_and]
  exact ⟨hround, hsticky⟩

/-- Shifting by `n` divides it by `2 ^ n`. -/
theorem shiftRight_located {x : ℚ} (hx : 0 ≤ x) (n : ℕ) :
    located x >>> n = located (x / 2 ^ n) := by
  change n.repeat ExtendedMantissa.shiftRightOne (located x) = _
  induction n with
  | zero => simp [Nat.repeat]
  | succ n ih => rw [Nat.repeat, ih, shiftRightOne_located (by positivity), pow_succ, div_div]

/-- A natural number is located exactly. -/
theorem ofMantissaAndAccuracy_exact (m : ℕ) :
    ExtendedMantissa.ofMantissaAndAccuracy m .exact = located m := by
  simp [ExtendedMantissa.ofMantissaAndAccuracy, located]

/-- A quotient is located by its natural part and its remainder. -/
theorem ofMantissaAndAccuracy_fraction (n d : ℕ) (hd : 0 < d) :
    ExtendedMantissa.ofMantissaAndAccuracy (n / d) (accuracyOfFraction (n % d) d) =
      located (n / d) := by
  have hd' : (0 : ℚ) < d := by exact_mod_cast hd
  have hfloor : ⌊(n / d : ℚ)⌋₊ = n / d := Nat.floor_div_eq_div n d
  have hrest : rest (n / d) * d = (n % d : ℕ) := by
    have hsplit : (n : ℚ) = d * (n / d : ℕ) + (n % d : ℕ) := by
      exact_mod_cast (Nat.div_add_mod n d).symm
    unfold rest
    rw [hfloor, sub_mul, div_mul_cancel₀ _ hd'.ne']
    linarith
  have hzero : rest (n / d) = 0 ↔ n % d = 0 := by
    rw [← mul_eq_zero_iff_right hd'.ne', hrest, Nat.cast_eq_zero]
  have htwice : 2 * rest (n / d) * d = (2 * (n % d) : ℕ) := by
    rw [mul_assoc, hrest]; push_cast; ring
  have hle : 1 ≤ 2 * rest (n / d) ↔ d ≤ 2 * (n % d) := by
    rw [← mul_le_mul_iff_left₀ hd', one_mul, htwice, Nat.cast_le]
  have heq : 2 * rest (n / d) = 1 ↔ 2 * (n % d) = d := by
    rw [← mul_left_inj' hd'.ne', one_mul, htwice, Nat.cast_inj]
  unfold accuracyOfFraction located
  simp only [hfloor, hle, heq, hzero, Ne]
  by_cases h0 : n % d = 0
  · simp [h0, hd.ne', ExtendedMantissa.ofMantissaAndAccuracy]
  · rw [if_neg h0]
    rcases Nat.lt_trichotomy (2 * (n % d)) d with h | h | h
    · simp [Nat.compare_eq_lt.mpr h, h0, h.ne, not_le.mpr h, ExtendedMantissa.ofMantissaAndAccuracy]
    · simp [h, h0, ExtendedMantissa.ofMantissaAndAccuracy]
    · simp [Nat.compare_eq_gt.mpr h, h0, h.ne', h.le, ExtendedMantissa.ofMantissaAndAccuracy]

/-! ## Fifty-three digits -/

/-- The exponent of the last digit that a number keeps. -/
def exponentOf (x : ℚ) : ℤ := max (Int.log 2 x - 52) (-1074)

/-- The significand that a number keeps. -/
def significand (x : ℚ) : ℕ := nearest (x / 2 ^ exponentOf x)

/-- The value that a number is rounded to. -/
def rounded (x : ℚ) : ℚ := significand x * 2 ^ exponentOf x

/-- A significand and its exponent as they are stored. -/
def stored (m : ℕ) (e : ℤ) : UnpackedFloat :=
  if h : m = 0 then .zero .positive else .finite .positive m e (Nat.pos_of_ne_zero h)

/-- A number as it is stored. A significand that rounding has carried to
fifty-four digits is shifted once more. -/
def encoded (x : ℚ) : UnpackedFloat :=
  if significand x = 2 ^ 53 then stored (2 ^ 52) (exponentOf x + 1)
  else stored (significand x) (exponentOf x)

@[simp] theorem significand_zero : significand 0 = 0 := by
  simp [significand, nearest, rest]

@[simp] theorem rounded_zero : rounded 0 = 0 := by
  simp [rounded]

theorem neg_le_exponentOf (x : ℚ) : -1074 ≤ exponentOf x := le_max_right _ _

theorem log_le_exponentOf (x : ℚ) : Int.log 2 x - 52 ≤ exponentOf x := le_max_left _ _

/-- A number has at most fifty-three digits above the last one it keeps. -/
theorem div_lt_two_pow {x : ℚ} : x / 2 ^ exponentOf x < 2 ^ 53 := by
  rw [div_lt_iff₀ (by positivity)]
  calc x < 2 ^ (Int.log 2 x + 1) := by exact_mod_cast Int.lt_zpow_succ_log_self (by decide) x
    _ ≤ 2 ^ (53 + exponentOf x) :=
        zpow_le_zpow_right₀ (by norm_num) (by have := log_le_exponentOf x; omega)
    _ = 2 ^ 53 * 2 ^ exponentOf x := by rw [zpow_add₀ (by norm_num)]; norm_num

theorem significand_le (x : ℚ) : significand x ≤ 2 ^ 53 :=
  nearest_le_of_le (by exact_mod_cast div_lt_two_pow.le)

/-- Above the least exponent, a number keeps fifty-three digits. -/
theorem le_significand {x : ℚ} (hx : 0 < x) (h : exponentOf x = Int.log 2 x - 52) :
    2 ^ 52 ≤ significand x := by
  refine le_nearest_of_le ?_
  rw [h, le_div_iff₀ (by positivity)]
  calc ((2 ^ 52 : ℕ) : ℚ) * 2 ^ (Int.log 2 x - 52) = 2 ^ Int.log 2 x := by
        rw [zpow_sub₀ (by norm_num)]; norm_num; field_simp
    _ ≤ x := by exact_mod_cast Int.zpow_log_le_self (by decide) hx

/-- The natural part of a scaled number tells its logarithm. -/
theorem log_eq_of_floor {x : ℚ} {m : ℕ} {e : ℤ} (hx : 0 ≤ x) (hm : 0 < m)
    (hfloor : ⌊x / 2 ^ e⌋₊ = m) : Int.log 2 x = m.log2 + e := by
  have hbounds := (Nat.log2_eq_iff hm.ne').mp (rfl : m.log2 = m.log2)
  have hpow : (0 : ℚ) < 2 ^ e := by positivity
  have hlo : (m : ℚ) * 2 ^ e ≤ x := by
    rw [← le_div_iff₀ hpow, ← hfloor]
    exact Nat.floor_le (by positivity)
  have hhi : x < (m + 1 : ℕ) * 2 ^ e := by
    rw [← div_lt_iff₀ hpow, ← hfloor]
    exact_mod_cast Nat.lt_floor_add_one (x / 2 ^ e)
  have hpos : 0 < x := lt_of_lt_of_le (by positivity) hlo
  apply le_antisymm
  · rw [← Int.lt_add_one_iff, ← Int.lt_zpow_iff_log_lt (by decide) hpos]
    calc x < (m + 1 : ℕ) * 2 ^ e := hhi
      _ ≤ (2 ^ (m.log2 + 1) : ℕ) * 2 ^ e := by gcongr; exact hbounds.2
      _ = ((2 : ℕ) : ℚ) ^ ((m.log2 : ℤ) + e + 1) := by
          push_cast
          rw [← zpow_natCast, ← zpow_add₀ (by norm_num)]
          congr 1; push_cast; ring
  · rw [← Int.zpow_le_iff_le_log (by decide) hpos]
    calc ((2 : ℕ) : ℚ) ^ ((m.log2 : ℤ) + e) = (2 ^ m.log2 : ℕ) * 2 ^ e := by
          push_cast
          rw [← zpow_natCast, ← zpow_add₀ (by norm_num)]
      _ ≤ m * 2 ^ e := by gcongr; exact hbounds.1
      _ ≤ x := hlo

/-- Fifty-three digits are kept, down to the least exponent. -/
theorem targetExponent_binary64 (total : ℤ) :
    Format.binary64.targetExponent total = max (total - 53) (-1074) := rfl

/-- The exponent that the rounding aims at is the one the number asks
for. -/
theorem targetExponent_eq {x : ℚ} {m : ℕ} {e : ℤ} (hx : 0 ≤ x) (hm : 0 < m)
    (hfloor : ⌊x / 2 ^ e⌋₊ = m) :
    Format.binary64.targetExponent (totalExponent m e) = exponentOf x := by
  rw [exponentOf, log_eq_of_floor hx hm hfloor]
  rw [targetExponent_binary64, totalExponent]
  omega

/-- So it is for a number with no digit above its exponent, if this is no greater
than the one the number asks for. -/
theorem targetExponent_eq_of_le {x : ℚ} {m : ℕ} {e : ℤ} (hx : 0 < x) (hfloor : ⌊x / 2 ^ e⌋₊ = m)
    (he : e ≤ exponentOf x) :
    Format.binary64.targetExponent (totalExponent m e) = exponentOf x := by
  rcases Nat.eq_zero_or_pos m with rfl | hm
  · -- the number is less than the power of two, so it asks for the least exponent
    have hlt : x < 2 ^ e := by
      rw [← div_lt_one (by positivity)]
      exact Nat.floor_eq_zero.mp hfloor
    have hlog : Int.log 2 x < e := by
      rw [← Int.lt_zpow_iff_log_lt (by decide) hx]
      exact_mod_cast hlt
    rw [targetExponent_binary64, totalExponent, Nat.log2_zero]
    unfold exponentOf at he ⊢
    omega
  · exact targetExponent_eq hx.le hm hfloor

/-- Shifting to a greater exponent. -/
theorem shiftToExponent_located {x : ℚ} {m : ℕ} {e t : ℤ} {a : Accuracy} (hx : 0 ≤ x)
    (hloc : ExtendedMantissa.ofMantissaAndAccuracy m a = located (x / 2 ^ e)) (he : e ≤ t) :
    shiftToExponent m e a t = (located (x / 2 ^ t), t) := by
  have hk : ((t - e).toNat : ℤ) = t - e := Int.toNat_of_nonneg (by omega)
  have hpow : (2 : ℚ) ^ e * 2 ^ (t - e).toNat = 2 ^ t := by
    rw [← zpow_natCast, hk, ← zpow_add₀ (by norm_num)]
    congr 1; omega
  unfold shiftToExponent
  dsimp only
  rw [hloc, shiftRight_located (by positivity), div_div, hpow, hk]
  congr 1; omega

/-- There is nothing to shift to a lesser one. -/
theorem shiftToExponent_of_le {m : ℕ} {e t : ℤ} {a : Accuracy} (he : t ≤ e) :
    shiftToExponent m e a t = (ExtendedMantissa.ofMantissaAndAccuracy m a, e) := by
  unfold shiftToExponent
  dsimp only
  rw [Int.toNat_of_nonpos (by omega)]
  simp only [Nat.cast_zero, add_zero, Prod.mk.injEq, and_true]
  rfl

/-- Rounding shifts twice: to the last digit kept, and once more if the
rounding has carried. -/
theorem roundWithAccuracy_eq_stored (spec : Format) (m : ℕ) (e : ℤ) (a : Accuracy) :
    roundWithAccuracy spec .positive m e a =
      let p := shiftToTargetExponent spec m e a
      let q := shiftToTargetExponent spec p.1.roundedMantissa p.2 .exact
      stored q.1.mantissa q.2 := rfl

/-- What is located begins with the significand. -/
theorem floor_of_located {y : ℚ} {m : ℕ} {a : Accuracy}
    (h : ExtendedMantissa.ofMantissaAndAccuracy m a = located y) : ⌊y⌋₊ = m := by
  have hmantissa := congrArg ExtendedMantissa.mantissa h
  cases a with
  | exact => exact hmantissa.symm
  | inexact o => cases o <;> exact hmantissa.symm

/-- A significand of at most fifty-three digits stays where it is. -/
theorem shiftToTargetExponent_of_lt {m : ℕ} {e : ℤ} (hm : m < 2 ^ 53) (he : -1074 ≤ e) :
    shiftToTargetExponent Format.binary64 m e .exact =
      (ExtendedMantissa.ofMantissaAndAccuracy m .exact, e) := by
  have hlog : m.log2 < 53 := by
    by_cases h0 : m = 0
    · rw [h0]; decide
    · exact (Nat.log2_lt h0).mpr hm
  have ht : Format.binary64.targetExponent (totalExponent m e) ≤ e := by
    rw [targetExponent_binary64, totalExponent]
    omega
  rw [shiftToTargetExponent, shiftToExponent_of_le ht]

/-- The least significand of fifty-four digits is shifted by one. -/
theorem shiftToTargetExponent_carry {e : ℤ} (he : -1074 ≤ e) :
    shiftToTargetExponent Format.binary64 (2 ^ 53) e .exact =
      (ExtendedMantissa.ofMantissaAndAccuracy (2 ^ 52) .exact, e + 1) := by
  have ht : Format.binary64.targetExponent (totalExponent (2 ^ 53) e) = e + 1 := by
    rw [targetExponent_binary64, totalExponent, Nat.log2_two_pow]
    omega
  have hexact : ExtendedMantissa.ofMantissaAndAccuracy (2 ^ 53) .exact =
      located (2 ^ 53 * 2 ^ e / 2 ^ e) := by
    rw [ofMantissaAndAccuracy_exact, mul_div_cancel_right₀ _ (by positivity)]
    norm_num
  have hhalf : (2 : ℚ) ^ 53 * 2 ^ e / 2 ^ (e + 1) = (2 ^ 52 : ℕ) := by
    rw [zpow_add_one₀ (by norm_num)]
    field_simp
    norm_num
  rw [shiftToTargetExponent, ht, shiftToExponent_located (by positivity) hexact (by omega), hhalf,
    ofMantissaAndAccuracy_exact]

/-- **Shifting and rounding a significand encodes the number it
locates.** -/
theorem roundWithAccuracy_eq {x : ℚ} {m : ℕ} {e : ℤ} {a : Accuracy} (hx : 0 < x)
    (hloc : ExtendedMantissa.ofMantissaAndAccuracy m a = located (x / 2 ^ e))
    (he : e ≤ exponentOf x) :
    roundWithAccuracy Format.binary64 .positive m e a = encoded x := by
  have hfirst : shiftToTargetExponent Format.binary64 m e a =
      (located (x / 2 ^ exponentOf x), exponentOf x) := by
    rw [shiftToTargetExponent, targetExponent_eq_of_le hx (floor_of_located hloc) he]
    exact shiftToExponent_located hx.le hloc he
  rw [roundWithAccuracy_eq_stored, hfirst]
  simp only [roundedMantissa_located]
  rw [← significand, encoded]
  -- the second shift does nothing unless the rounding has carried
  by_cases hcarry : significand x = 2 ^ 53
  · rw [if_pos hcarry, hcarry, shiftToTargetExponent_carry (neg_le_exponentOf x)]
    rfl
  · have hlt : significand x < 2 ^ 53 := (significand_le x).lt_of_ne hcarry
    rw [if_neg hcarry, shiftToTargetExponent_of_lt hlt (neg_le_exponentOf x)]
    rfl

/-! ## The value that comes out -/

theorem exponentOf_mono {x y : ℚ} (hx : 0 < x) (h : x ≤ y) : exponentOf x ≤ exponentOf y :=
  max_le_max_right _ (sub_le_sub_right (Int.log_mono_right hx h) _)

theorem rounded_nonneg (x : ℚ) : 0 ≤ rounded x := by
  unfold rounded
  positivity

/-- What ends with the last digit kept is kept. -/
theorem rounded_of_div_eq {x : ℚ} {n : ℕ} (h : x / 2 ^ exponentOf x = n) : rounded x = x := by
  rw [rounded, significand, h, nearest_natCast, ← h, div_mul_cancel₀ _ (by positivity)]

/-- A multiple of a power of two is kept if it has at most fifty-three
digits. -/
theorem rounded_mul_zpow {m : ℕ} {e : ℤ} (hm : m < 2 ^ 53) (he : -1074 ≤ e) :
    rounded (m * 2 ^ e) = m * 2 ^ e := by
  rcases Nat.eq_zero_or_pos m with rfl | hpos
  · simp
  have hlog : Int.log 2 ((m : ℚ) * 2 ^ e) = m.log2 + e :=
    log_eq_of_floor (by positivity) hpos
      (by rw [mul_div_cancel_right₀ _ (by positivity), Nat.floor_natCast])
  have hlt : m.log2 < 53 := (Nat.log2_lt hpos.ne').mpr hm
  have hle : exponentOf (m * 2 ^ e) ≤ e := by rw [exponentOf, hlog]; omega
  obtain ⟨k, hk⟩ := Int.eq_ofNat_of_zero_le (sub_nonneg.mpr hle)
  refine rounded_of_div_eq (n := m * 2 ^ k) ?_
  rw [mul_div_assoc, ← zpow_sub₀ (by norm_num), hk]
  push_cast
  simp

/-- A natural number of at most fifty-three digits is kept. -/
theorem rounded_natCast {n : ℕ} (h : n < 2 ^ 53) : rounded n = n := by
  simpa using rounded_mul_zpow (e := 0) h (by norm_num)

/-- **Rounding to fifty-three digits is monotone.** Numbers that keep the
same last digit are rounded alike; otherwise a power of two, which is
kept, lies between them. -/
theorem rounded_mono {x y : ℚ} (hx : 0 ≤ x) (h : x ≤ y) : rounded x ≤ rounded y := by
  rcases hx.eq_or_lt with rfl | hpos
  · simpa using rounded_nonneg y
  rcases (exponentOf_mono hpos h).eq_or_lt with heq | hlt
  · unfold rounded significand
    rw [heq]
    gcongr
    exact nearest_mono (by gcongr)
  · have hy : exponentOf y = Int.log 2 y - 52 := by
      have := neg_le_exponentOf x
      unfold exponentOf at hlt ⊢
      omega
    have hle : exponentOf x + 53 ≤ exponentOf y + 52 := by omega
    calc rounded x ≤ (2 ^ 53 : ℕ) * 2 ^ exponentOf x := by
          unfold rounded
          gcongr
          exact significand_le x
      _ = 2 ^ (exponentOf x + 53) := by rw [zpow_add₀ (by norm_num)]; norm_num; ring
      _ ≤ 2 ^ (exponentOf y + 52) := zpow_le_zpow_right₀ (by norm_num) hle
      _ = (2 ^ 52 : ℕ) * 2 ^ exponentOf y := by rw [zpow_add₀ (by norm_num)]; norm_num; ring
      _ ≤ rounded y := by
          unfold rounded
          gcongr
          exact le_significand (lt_of_lt_of_le hpos h) hy

/-- A rounded number in terms of a last digit further to the right. -/
theorem rounded_eq_mul_zpow {x y : ℚ} {d : ℕ} (hexp : exponentOf y = d + exponentOf x) :
    rounded y = (significand y * 2 ^ d : ℕ) * 2 ^ exponentOf x := by
  rw [rounded, hexp, zpow_add₀ (by norm_num), zpow_natCast]
  push_cast
  ring

theorem significand_apart {x y : ℚ} {d : ℕ} (hy : 0 < y) (hexp : exponentOf y = d + exponentOf x)
    (hlt : significand x < significand y * 2 ^ d) :
    2 ^ 53 * significand x ≤ (2 ^ 53 - 1) * (significand y * 2 ^ d) := by
  have hx53 := significand_le x
  have hy53 := significand_le y
  cases d with
  | zero =>
    rw [pow_zero, mul_one] at hlt ⊢
    omega
  | succ d =>
    -- the greater number is above the least exponent, so it has all its digits
    have hfull : 2 ^ 52 ≤ significand y := by
      refine le_significand hy ?_
      have := neg_le_exponentOf x
      unfold exponentOf at hexp this ⊢
      omega
    have hhalf : 2 ^ 52 ≤ significand y * 2 ^ d :=
      hfull.trans (Nat.le_mul_of_pos_right _ (by positivity))
    have hpow : significand y * 2 ^ (d + 1) = 2 * (significand y * 2 ^ d) := by ring
    rw [hpow] at hlt ⊢
    generalize significand y * 2 ^ d = half at hlt hhalf ⊢
    rcases hhalf.eq_or_lt with rfl | hmore
    · omega
    · omega

/-- **Rounded numbers that differ are a digit apart**: the lesser one is
at most the greatest number below one times the greater one. -/
theorem rounded_apart {x y : ℚ} (hx : 0 ≤ x) (hxy : x ≤ y) (h : rounded x < rounded y) :
    2 ^ 53 * rounded x ≤ (2 ^ 53 - 1) * rounded y := by
  rcases hx.eq_or_lt with rfl | hpos
  · rw [rounded_zero, mul_zero]
    exact mul_nonneg (by norm_num) (rounded_nonneg y)
  obtain ⟨d, hd⟩ := Int.eq_ofNat_of_zero_le (sub_nonneg.mpr (exponentOf_mono hpos hxy))
  have hexp : exponentOf y = d + exponentOf x := by omega
  -- both are multiples of the last digit of the lesser one
  rw [rounded_eq_mul_zpow hexp] at h ⊢
  have hlt : significand x < significand y * 2 ^ d := by
    rw [rounded, mul_lt_mul_iff_left₀ (by positivity)] at h
    exact_mod_cast h
  have hmul := significand_apart (lt_of_lt_of_le hpos hxy) hexp hlt
  rw [rounded, ← mul_assoc, ← mul_assoc]
  refine mul_le_mul_of_nonneg_right ?_ (by positivity)
  have hsub : ((2 ^ 53 - 1 : ℕ) : ℚ) = 2 ^ 53 - 1 := by norm_num
  rw [← hsub]
  exact_mod_cast hmul

end Binary64

end DocCoverage
