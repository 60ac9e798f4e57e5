import DocCoverage.Proofs.Binary64.Rounding
import Mathlib.Algebra.Order.Group.Abs
/-!
# Binary64 — how far rounding goes

Rounding to a natural number goes at most a half (`abs_nearest_sub_le`), so
rounding to fifty-three digits goes at most half a unit of the last digit that
is kept. For a number that keeps all fifty-three this is at most one part in
2^53 of it (`abs_rounded_sub_le`).
-/

namespace DocCoverage

namespace Binary64

section Rounding

variable {x : ℚ}

/-- The nearest natural number is at most a half away. -/
theorem abs_nearest_sub_le (hx : 0 ≤ x) : |(nearest x : ℚ) - x| ≤ 1 / 2 := by
  have hrest : x = ⌊x⌋₊ + rest x := by
    unfold rest
    ring
  have hlow := rest_nonneg hx
  have hhigh := rest_lt_one x
  unfold nearest
  split_ifs with hless heven
  · rw [abs_le]
    constructor <;> linarith
  · -- halfway, the even neighbour is below or above
    rcases Nat.mod_two_eq_zero_or_one ⌊x⌋₊ with hmod | hmod <;> rw [hmod, abs_le] <;> push_cast <;>
      constructor <;> linarith
  · push_cast
    rw [abs_le]
    constructor <;> linarith

/-- Rounding goes at most half a unit of the last digit that is kept. -/
theorem abs_rounded_sub_le_zpow (hx : 0 ≤ x) : |rounded x - x| ≤ 2 ^ exponentOf x / 2 := by
  have hpow : (0 : ℚ) < 2 ^ exponentOf x := by positivity
  have hnearest := abs_nearest_sub_le (div_nonneg hx hpow.le)
  have hscale : rounded x - x = (significand x - x / 2 ^ exponentOf x) * 2 ^ exponentOf x := by
    rw [sub_mul, div_mul_cancel₀ _ hpow.ne', rounded]
  rw [hscale, abs_mul, abs_of_pos hpow]
  calc |(significand x : ℚ) - x / 2 ^ exponentOf x| * 2 ^ exponentOf x
      ≤ 1 / 2 * 2 ^ exponentOf x := mul_le_mul_of_nonneg_right hnearest hpow.le
    _ = 2 ^ exponentOf x / 2 := by ring

/-- **Rounding changes a number by at most one part in 2^53**, unless it is too
small for fifty-three digits. -/
theorem abs_rounded_sub_le (h : x = 0 ∨ (2 : ℚ) ^ (-1022 : ℤ) ≤ x) :
    |rounded x - x| ≤ x / 2 ^ 53 := by
  rcases h with rfl | hnormal
  · simp
  have hpos : 0 < x := lt_of_lt_of_le (by positivity) hnormal
  have hlog : -1022 ≤ Int.log 2 x := by
    rw [← Int.zpow_le_iff_le_log (by decide) hpos]
    exact_mod_cast hnormal
  have hexp : exponentOf x = Int.log 2 x - 52 := by
    unfold exponentOf
    omega
  have hself : (2 : ℚ) ^ Int.log 2 x ≤ x := by
    exact_mod_cast Int.zpow_log_le_self (b := 2) (by decide) hpos
  calc |rounded x - x| ≤ 2 ^ exponentOf x / 2 := abs_rounded_sub_le_zpow hpos.le
    _ = 2 ^ Int.log 2 x / 2 ^ 53 := by
        rw [hexp, zpow_sub₀ (by norm_num)]
        norm_num
        ring
    _ ≤ x / 2 ^ 53 := by gcongr

end Rounding

/-! ## Sums of numbers that are kept -/

section Sums

variable {x y : ℚ}

/-- What is kept is a multiple of the least positive number. -/
theorem exists_mul_of_kept (h : rounded x = x) : ∃ m : ℕ, x = m * 2 ^ (-1074 : ℤ) := by
  obtain ⟨k, hk⟩ := Int.eq_ofNat_of_zero_le (sub_nonneg.mpr (neg_le_exponentOf x))
  have hexp : exponentOf x = k + -1074 := by omega
  refine ⟨significand x * 2 ^ k, ?_⟩
  calc x = significand x * 2 ^ exponentOf x := h.symm
    _ = (significand x * 2 ^ k : ℕ) * 2 ^ (-1074 : ℤ) := by
        rw [hexp, zpow_add₀ (by norm_num), zpow_natCast, Nat.cast_mul, Nat.cast_pow, Nat.cast_ofNat,
          mul_assoc]

/-- **A sum is rounded by at most one part in 2^53**, however small it is: a sum
that is too small for fifty-three digits is kept. -/
theorem abs_rounded_add_sub_le (hx : rounded x = x) (hy : rounded y = y) :
    |rounded (x + y) - (x + y)| ≤ (x + y) / 2 ^ 53 := by
  have hnonneg : 0 ≤ x + y := add_nonneg (hx ▸ rounded_nonneg x) (hy ▸ rounded_nonneg y)
  rcases le_or_gt ((2 : ℚ) ^ (-1022 : ℤ)) (x + y) with hnormal | hsmall
  · exact abs_rounded_sub_le (.inr hnormal)
  obtain ⟨m, hm⟩ := exists_mul_of_kept hx
  obtain ⟨n, hn⟩ := exists_mul_of_kept hy
  have hsum : x + y = (m + n : ℕ) * 2 ^ (-1074 : ℤ) := by rw [hm, hn, Nat.cast_add, add_mul]
  have hdigits : m + n < 2 ^ 53 := by
    have hlt : ((m + n : ℕ) : ℚ) * 2 ^ (-1074 : ℤ) < 2 ^ (52 : ℤ) * 2 ^ (-1074 : ℤ) := by
      rw [← hsum, ← zpow_add₀ (by norm_num)]
      exact hsmall
    have hcount : ((m + n : ℕ) : ℚ) < 2 ^ 52 := by
      exact_mod_cast lt_of_mul_lt_mul_right hlt (by positivity)
    have hnat : m + n < 2 ^ 52 := by exact_mod_cast hcount
    omega
  have hkept : rounded (x + y) = x + y := by rw [hsum, rounded_mul_zpow hdigits (by norm_num)]
  rw [hkept, sub_self, abs_zero]
  positivity

end Sums

/-! ## Errors that add up -/

/-- Whether `x` is at most `k` parts in 2^53 of `y` away from it. -/
def Off (k x y : ℚ) : Prop := |x - y| ≤ k * y / 2 ^ 53

section Off

variable {k x y a b : ℚ}

theorem off_rounded_natCast (n : ℕ) : Off 1 (rounded n) n := by
  rw [Off, one_mul]
  refine abs_rounded_sub_le (n.eq_zero_or_pos.imp (fun hzero => by exact_mod_cast hzero) fun hn => ?_)
  calc (2 : ℚ) ^ (-1022 : ℤ) ≤ 1 := zpow_le_one_of_nonpos₀ (by norm_num) (by norm_num)
    _ ≤ n := by exact_mod_cast hn

/-- One more rounding adds a little more than one part. -/
theorem Off.rounded (h : Off k x y) (hy : 0 ≤ y) (hk : k ≤ 8)
    (hnormal : x = 0 ∨ (2 : ℚ) ^ (-1022 : ℤ) ≤ x) : Off (k + 5 / 4) (rounded x) y := by
  have hstep := abs_rounded_sub_le hnormal
  have hx : x ≤ y * (5 / 4) := by
    have hfar := (abs_le.mp h).2
    have hparts : k * y / 2 ^ 53 ≤ y / 4 := by
      rw [div_le_iff₀ (by positivity)]
      nlinarith
    linarith
  rw [Off] at h ⊢
  calc |Binary64.rounded x - y| ≤ |Binary64.rounded x - x| + |x - y| := abs_sub_le _ _ _
    _ ≤ x / 2 ^ 53 + k * y / 2 ^ 53 := add_le_add hstep h
    _ ≤ y * (5 / 4) / 2 ^ 53 + k * y / 2 ^ 53 := by gcongr
    _ = (k + 5 / 4) * y / 2 ^ 53 := by ring

/-- The errors of a quotient add up, and a little more. -/
theorem Off.div (hx : Off 1 x a) (hy : Off 1 y b) (ha : 0 ≤ a) (hb : 0 < b) :
    Off (5 / 2) (x / y) (a / b) := by
  rw [Off, one_mul] at hx hy
  have hlow : 4 / 5 * b ≤ y := by
    have hnear := (abs_le.mp hy).1
    linarith
  have hpos : 0 < y := lt_of_lt_of_le (by positivity) hlow
  have hsplit : x / y - a / b = (b * (x - a) - a * (y - b)) / (y * b) := by
    field_simp
    ring
  have hnum : |b * (x - a) - a * (y - b)| ≤ b * (a / 2 ^ 53) + a * (b / 2 ^ 53) :=
    calc |b * (x - a) - a * (y - b)| ≤ |b * (x - a)| + |a * (y - b)| := abs_sub _ _
      _ = b * |x - a| + a * |y - b| := by
          rw [abs_mul, abs_mul, abs_of_pos hb, abs_of_nonneg ha]
      _ ≤ b * (a / 2 ^ 53) + a * (b / 2 ^ 53) := by gcongr
  rw [Off, hsplit, abs_div, abs_of_pos (mul_pos hpos hb)]
  calc |b * (x - a) - a * (y - b)| / (y * b)
      ≤ (b * (a / 2 ^ 53) + a * (b / 2 ^ 53)) / (y * b) := by gcongr
    _ = 2 * a / 2 ^ 53 / y := by
        field_simp
        ring
    _ ≤ 2 * a / 2 ^ 53 / (4 / 5 * b) := by gcongr
    _ = 5 / 2 * (a / b) / 2 ^ 53 := by
        field_simp
        ring

/-- A factor leaves the error as it is. -/
theorem Off.const_mul {c : ℚ} (h : Off k x y) (hc : 0 ≤ c) : Off k (c * x) (c * y) := by
  rw [Off] at h ⊢
  rw [← mul_sub, abs_mul, abs_of_nonneg hc]
  calc c * |x - y| ≤ c * (k * y / 2 ^ 53) := mul_le_mul_of_nonneg_left h hc
    _ = k * (c * y) / 2 ^ 53 := by ring

end Off

end Binary64

end DocCoverage
