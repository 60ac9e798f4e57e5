import DocCoverage.Proofs.Binary64.Arithmetic
import DocCoverage.Proofs.Binary64.Order
import DocCoverage.Report.Basic
/-!
# Reports — the percentage as a floating-point number

A percentage takes two roundings, that of the quotient and that of the
product with one hundred (`percentage_eq_ofRat`). Both keep the order, so
that it lies between zero and one hundred and grows with the part. It is
one hundred only if the part and the whole are rounded to the same number
(`percentage_eq_hundred_iff_rounded`), because the greatest number below
one stays below one hundred when it is multiplied. Up to 2^53, where every
count is a floating-point number, only the whole is one hundred percent.
-/

namespace DocCoverage

namespace Report

open Binary64

variable {part whole : ℕ}

/-! ## Roundings of counts and of their quotients -/

theorem one_le_rounded {n : ℕ} (hn : 0 < n) : 1 ≤ rounded n := by
  have hone : rounded 1 = 1 := by exact_mod_cast rounded_natCast (n := 1) (by decide)
  rw [← hone]
  exact rounded_mono (by norm_num) (by exact_mod_cast hn)

theorem rounded_natCast_of_le {n : ℕ} (h : n ≤ 2 ^ 53) : rounded n = n := by
  rcases h.lt_or_eq with hlt | rfl
  · exact rounded_natCast hlt
  · have h := rounded_mul_zpow (m := 1) (e := 53) (by norm_num) (by norm_num)
    norm_num at h ⊢
    exact h

theorem rounded_le_two_pow {n : ℕ} (hn : n < 2 ^ 64) : rounded n ≤ 2 ^ 64 := by
  have hpow : rounded (2 ^ 64) = 2 ^ 64 := by
    have h := rounded_mul_zpow (m := 1) (e := 64) (by norm_num) (by norm_num)
    simpa using h
  rw [← hpow]
  exact rounded_mono (by positivity) (by exact_mod_cast hn.le)

/-- What is rounded when a count is divided by another. -/
def ratio (part whole : ℕ) : ℚ := rounded part / rounded whole

theorem ratio_nonneg : 0 ≤ ratio part whole := div_nonneg (rounded_nonneg _) (rounded_nonneg _)

theorem ratio_mono {part' : ℕ} (h : part ≤ part') : ratio part whole ≤ ratio part' whole := by
  have hround : rounded part ≤ rounded part' :=
    rounded_mono (by positivity) (by exact_mod_cast h)
  exact div_le_div_of_nonneg_right hround (rounded_nonneg _)

theorem ratio_self (hpos : 0 < whole) : ratio whole whole = 1 :=
  div_self (lt_of_lt_of_le one_pos (one_le_rounded hpos)).ne'

theorem ratio_le_one (hpos : 0 < whole) (h : part ≤ whole) : ratio part whole ≤ 1 := by
  rw [← ratio_self hpos]
  exact ratio_mono h

/-- A ratio of counts is not too small, unless there is no part. -/
theorem le_ratio (hpart : 0 < part) (hpos : 0 < whole) (hb : whole < 2 ^ 64) :
    (2 : ℚ) ^ (-64 : ℤ) ≤ ratio part whole := by
  have hnum := one_le_rounded hpart
  have hden := one_le_rounded hpos
  have hle := rounded_le_two_pow hb
  rw [ratio, le_div_iff₀ (by linarith)]
  calc (2 : ℚ) ^ (-64 : ℤ) * rounded whole ≤ 2 ^ (-64 : ℤ) * 2 ^ 64 := by gcongr
    _ = 1 := by norm_num
    _ ≤ rounded part := hnum

/-- The quotient of two counts, as it is computed. -/
def quotient (part whole : ℕ) : ℚ := rounded (ratio part whole)

theorem quotient_nonneg : 0 ≤ quotient part whole := rounded_nonneg _

theorem quotient_mono {part' : ℕ} (h : part ≤ part') :
    quotient part whole ≤ quotient part' whole :=
  rounded_mono ratio_nonneg (ratio_mono h)

theorem quotient_self (hpos : 0 < whole) : quotient whole whole = 1 := by
  rw [quotient, ratio_self hpos]
  exact_mod_cast rounded_natCast (n := 1) (by decide)

theorem quotient_le_one (hpos : 0 < whole) (h : part ≤ whole) : quotient part whole ≤ 1 := by
  rw [← quotient_self hpos]
  exact quotient_mono h

/-! ## The percentage -/

theorem inRange_hundred : InRange 100 := by
  exact_mod_cast inRange_natCast (n := 100) (by norm_num)

theorem rounded_hundred : rounded 100 = 100 := by
  exact_mod_cast rounded_natCast (n := 100) (by norm_num)

theorem inRange_quotient (hpos : 0 < whole) (h : part ≤ whole) :
    InRange (100 * quotient part whole) := by
  have hone := quotient_le_one hpos h
  exact InRange.of_le (mul_nonneg (by norm_num) quotient_nonneg) (by linarith) inRange_hundred

theorem percentage_zero : (percentage part 0 : Float) = 100.0 := rfl

/-- **A percentage is the quotient times one hundred, rounded again.** -/
theorem percentage_eq_ofRat (hpos : 0 < whole) (h : part ≤ whole) (hb : whole < 2 ^ 64) :
    (percentage part whole : Float) = ofRat (100 * quotient part whole) := by
  have hden := one_le_rounded hpos
  have hratio : InRange (ratio part whole) :=
    InRange.of_le ratio_nonneg ((ratio_le_one hpos h).trans (by norm_num)) inRange_hundred
  rw [percentage, if_neg hpos.ne']
  change Float.ofNat part / Float.ofNat whole * 100.0 = _
  rw [float_ofNat_eq, float_ofNat_eq, hundred_eq_ofRat,
    ofRat_div_ofRat (inRange_natCast (by omega)) (inRange_natCast hb) (by linarith),
    ← ratio, ofRat_mul_ofRat hratio inRange_hundred, rounded_hundred, ← quotient, mul_comm]

theorem percentage_self (hb : whole < 2 ^ 64) : (percentage whole whole : Float) = 100.0 := by
  rcases whole.eq_zero_or_pos with rfl | hpos
  · exact percentage_zero
  · rw [percentage_eq_ofRat hpos le_rfl hb, quotient_self hpos, mul_one, hundred_eq_ofRat]

theorem percentage_mono {part' : ℕ} (h : part ≤ part') (h' : part' ≤ whole)
    (hb : whole < 2 ^ 64) : (percentage part whole : Float) ≤ percentage part' whole := by
  rcases whole.eq_zero_or_pos with rfl | hpos
  · rw [percentage_zero, percentage_zero, hundred_eq_ofRat, ofRat_le_iff inRange_hundred
      inRange_hundred]
  · rw [percentage_eq_ofRat hpos (h.trans h') hb, percentage_eq_ofRat hpos h' hb,
      ofRat_le_iff (inRange_quotient hpos (h.trans h')) (inRange_quotient hpos h')]
    refine rounded_mono (mul_nonneg (by norm_num) quotient_nonneg) ?_
    exact mul_le_mul_of_nonneg_left (quotient_mono h) (by norm_num)

theorem percentage_le_hundred (h : part ≤ whole) (hb : whole < 2 ^ 64) :
    (percentage part whole : Float) ≤ 100.0 := by
  rw [← percentage_self hb]
  exact percentage_mono h le_rfl hb

theorem zero_le_percentage (h : part ≤ whole) (hb : whole < 2 ^ 64) :
    (0.0 : Float) ≤ percentage part whole := by
  have hzero : InRange 0 := by exact_mod_cast inRange_natCast (n := 0) (by norm_num)
  rcases whole.eq_zero_or_pos with rfl | hpos
  · rw [percentage_zero, zero_eq_ofRat, hundred_eq_ofRat, ofRat_le_iff hzero inRange_hundred]
    exact rounded_mono le_rfl (by norm_num)
  · rw [percentage_eq_ofRat hpos h hb, zero_eq_ofRat,
      ofRat_le_iff hzero (inRange_quotient hpos h)]
    exact rounded_mono le_rfl (mul_nonneg (by norm_num) quotient_nonneg)

/-! ## One hundred percent -/

/-- The greatest number below one. -/
def belowOne : ℚ := (2 ^ 53 - 1 : ℕ) * 2 ^ (-53 : ℤ)

theorem rounded_belowOne : rounded belowOne = belowOne :=
  rounded_mul_zpow (by norm_num) (by norm_num)

/-- A quotient of counts that are told apart is at most that number. -/
theorem quotient_le_belowOne (h : part ≤ whole) (hlt : rounded part < rounded whole) :
    quotient part whole ≤ belowOne := by
  rw [← rounded_belowOne]
  refine rounded_mono ratio_nonneg ?_
  have hpos : 0 < rounded whole := lt_of_le_of_lt (rounded_nonneg _) hlt
  have hapart := rounded_apart (by positivity) (by exact_mod_cast h) hlt
  rw [ratio, div_le_iff₀ hpos, belowOne]
  norm_num at hapart ⊢
  linarith

/-- One hundred times the greatest number below one is rounded down. -/
theorem rounded_hundred_mul_belowOne : rounded (100 * belowOne) < 100 := by
  have hbound : (0 : ℚ) ≤ 100 * belowOne ∧ 100 * belowOne < 100 := by
    norm_num [belowOne]
  have hlog : Int.log 2 (100 * belowOne) = 6 := by
    refine log_eq_of_floor (m := 99) (e := 0) hbound.1 (by norm_num) ?_
    rw [zpow_zero, div_one, Nat.floor_eq_iff hbound.1]
    norm_num [belowOne]
  have hexp : exponentOf (100 * belowOne) = -46 := by
    rw [exponentOf, hlog]
    norm_num
  -- in units of its last digit the product is 100 * 2^46 - 0.78125
  have hfloor : ⌊100 * belowOne / 2 ^ (-46 : ℤ)⌋₊ = 100 * 2 ^ 46 - 1 := by
    rw [Nat.floor_eq_iff (div_nonneg hbound.1 (by positivity))]
    norm_num [belowOne]
  rw [rounded, significand, hexp, nearest, rest, hfloor]
  norm_num [belowOne]

/-- **One hundred percent is what rounds like the whole.** -/
theorem percentage_eq_hundred_iff_rounded (h : part ≤ whole) (hb : whole < 2 ^ 64) :
    (percentage part whole : Float) = 100.0 ↔ rounded part = rounded whole := by
  rcases whole.eq_zero_or_pos with rfl | hpos
  · obtain rfl : part = 0 := by omega
    exact ⟨fun _ => rfl, fun _ => percentage_zero⟩
  rw [percentage_eq_ofRat hpos h hb, hundred_eq_ofRat,
    ofRat_inj (inRange_quotient hpos h) inRange_hundred, rounded_hundred]
  constructor
  · intro heq
    have hle : rounded part ≤ rounded whole := rounded_mono (by positivity) (by exact_mod_cast h)
    by_contra hne
    -- if they differ, the quotient stays below one, and its product below one hundred
    have hbelow := quotient_le_belowOne h (lt_of_le_of_ne hle hne)
    have hround : rounded (100 * quotient part whole) ≤ rounded (100 * belowOne) :=
      rounded_mono (mul_nonneg (by norm_num) quotient_nonneg)
        (mul_le_mul_of_nonneg_left hbelow (by norm_num))
    exact (hround.trans_lt rounded_hundred_mul_belowOne).ne heq
  · intro heq
    have hone : quotient part whole = 1 := by
      rw [← quotient_self hpos, quotient, quotient, ratio, ratio, heq]
    rw [hone, mul_one, rounded_hundred]

/-- **Up to 2^53 only the whole is one hundred percent.** -/
theorem percentage_eq_hundred_iff (h : part ≤ whole) (hb : whole ≤ 2 ^ 53) :
    (percentage part whole : Float) = 100.0 ↔ part = whole := by
  rw [percentage_eq_hundred_iff_rounded h (by omega), rounded_natCast_of_le (by omega),
    rounded_natCast_of_le hb, Nat.cast_inj]

end Report

end DocCoverage
