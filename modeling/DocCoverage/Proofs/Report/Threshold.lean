import DocCoverage.Proofs.Binary64.Error
import DocCoverage.Proofs.Binary64.Values
import DocCoverage.Proofs.Report.Percentage
import DocCoverage.Report.Tally
/-!
# Reports — how exact the floor of the coverage is

Two counts are rounded, then their quotient, then the percentage. What is
compared with a floor is less than 2^-44 away from the exact percentage
(`abs_percentage_sub_lt`), so a whole number of percent is compared as it should
be unless the exact percentage is as near to it as that. Up to 2^44 files this
means that they are equal. The percentage then depends on nothing but the floor
(`percentage_congr`), and three floors are missed by those who reach them
exactly (`meets_iff_percent`).
-/

namespace DocCoverage

namespace Report

open Binary64

variable {part whole part' whole' floor : ℕ}

/-! ## The error of a percentage -/

/-- A number that is at least 2^-64 is not too small for fifty-three digits. -/
theorem normal_of_large {x : ℚ} (h : x = 0 ∨ (2 : ℚ) ^ (-64 : ℤ) ≤ x) :
    x = 0 ∨ (2 : ℚ) ^ (-1022 : ℤ) ≤ x :=
  h.imp_right (zpow_le_zpow_right₀ (by norm_num) (by norm_num)).trans

theorem ratio_large (part : ℕ) (hpos : 0 < whole) (hb : whole < 2 ^ 64) :
    ratio part whole = 0 ∨ (2 : ℚ) ^ (-64 : ℤ) ≤ ratio part whole := by
  refine part.eq_zero_or_pos.imp (fun hzero => ?_) fun hpart => le_ratio hpart hpos hb
  simp [hzero, ratio]

theorem quotient_large (part : ℕ) (hpos : 0 < whole) (hb : whole < 2 ^ 64) :
    quotient part whole = 0 ∨ (2 : ℚ) ^ (-64 : ℤ) ≤ quotient part whole := by
  refine (ratio_large part hpos hb).imp (fun hzero => ?_) fun hlarge => ?_
  · rw [quotient, hzero, rounded_zero]
  · have hkept : rounded (2 ^ (-64 : ℤ)) = 2 ^ (-64 : ℤ) := by
      simpa using rounded_mul_zpow (m := 1) (e := -64) (by norm_num) (by norm_num)
    exact le_rounded (by positivity) hlarge hkept

/-- **A percentage is less than 2^-44 away from the exact one.** -/
theorem abs_percentage_sub_lt (hpos : 0 < whole) (h : part ≤ whole) (hb : whole < 2 ^ 64) :
    |rounded (100 * quotient part whole) - 100 * (part / whole : ℚ)| < 1 / 2 ^ 44 := by
  have hwhole : (0 : ℚ) < whole := by exact_mod_cast hpos
  have hshare : (0 : ℚ) ≤ part / whole := by positivity
  have hone : (part / whole : ℚ) ≤ 1 := (div_le_one hwhole).mpr (by exact_mod_cast h)
  have hratio : Off (5 / 2) (ratio part whole) (part / whole) :=
    (off_rounded_natCast part).div (off_rounded_natCast whole) (Nat.cast_nonneg part) hwhole
  have hquotient : Off (5 / 2 + 5 / 4) (quotient part whole) (part / whole) :=
    hratio.rounded hshare (by norm_num) (normal_of_large (ratio_large part hpos hb))
  have hproduct : Off (5 / 2 + 5 / 4 + 5 / 4) (rounded (100 * quotient part whole))
      (100 * (part / whole)) := by
    refine (hquotient.const_mul (by norm_num)).rounded (by positivity) (by norm_num) ?_
    refine normal_of_large ((quotient_large part hpos hb).imp (fun hzero => ?_) fun hlarge => ?_)
    · rw [hzero, mul_zero]
    · exact hlarge.trans (le_mul_of_one_le_left quotient_nonneg (by norm_num))
  calc |rounded (100 * quotient part whole) - 100 * (part / whole : ℚ)|
      ≤ (5 / 2 + 5 / 4 + 5 / 4) * (100 * (part / whole)) / 2 ^ 53 := hproduct
    _ ≤ (5 / 2 + 5 / 4 + 5 / 4) * (100 * 1) / 2 ^ 53 := by gcongr
    _ < 1 / 2 ^ 44 := by norm_num

/-! ## Whole floors -/

/-- A whole floor compares with what is rounded last. -/
theorem ofNat_le_percentage_iff (hpos : 0 < whole) (h : part ≤ whole) (hb : whole < 2 ^ 64)
    (hfloor : floor ≤ 100) : Float.ofNat floor ≤ percentage part whole ↔
      (floor : ℚ) ≤ rounded (100 * quotient part whole) := by
  rw [percentage_eq_ofRat hpos h hb, float_ofNat_eq,
    ofRat_le_iff (inRange_natCast (by omega)) (inRange_quotient hpos h),
    rounded_natCast (by omega)]

/-- **Away from the floor the comparison is exact.** -/
theorem ofNat_le_percentage_of_far (hpos : 0 < whole) (h : part ≤ whole) (hb : whole < 2 ^ 64)
    (hfloor : floor ≤ 100)
    (hfar : (whole : ℤ) ≤ 2 ^ 44 * |100 * (part : ℤ) - floor * whole|) :
    Float.ofNat floor ≤ percentage part whole ↔ floor * whole ≤ 100 * part := by
  have hwhole : (0 : ℚ) < whole := by exact_mod_cast hpos
  have herror := abs_percentage_sub_lt hpos h hb
  have hscale : (100 * part - floor * whole : ℚ) = (100 * (part / whole) - floor) * whole := by
    field_simp
  have hgap : 1 / 2 ^ 44 ≤ |100 * (part / whole : ℚ) - floor| := by
    have hcast : (whole : ℚ) ≤ 2 ^ 44 * |(100 * part - floor * whole : ℚ)| := by
      exact_mod_cast hfar
    rw [hscale, abs_mul, abs_of_pos hwhole, ← mul_assoc] at hcast
    have hunit : 1 ≤ 2 ^ 44 * |100 * (part / whole : ℚ) - floor| :=
      le_of_mul_le_mul_right (by rwa [one_mul]) hwhole
    rwa [div_le_iff₀' (by norm_num)]
  have hexact : floor * whole ≤ 100 * part ↔ (floor : ℚ) ≤ 100 * (part / whole) := by
    rw [mul_div_assoc', le_div_iff₀ hwhole]
    exact_mod_cast Iff.rfl
  rw [ofNat_le_percentage_iff hpos h hb hfloor, hexact]
  -- the error is too small to carry the percentage over the floor
  rcases abs_lt.mp herror with ⟨hlow, hhigh⟩
  rcases le_abs.mp hgap with hover | hunder
  · constructor <;> intro <;> linarith
  · constructor <;> intro <;> linarith

/-- **Equal shares have the same percentage**, as long as counts are kept. -/
theorem percentage_congr (hpos : 0 < whole) (hpos' : 0 < whole') (h : part ≤ whole)
    (h' : part' ≤ whole') (hb : whole ≤ 2 ^ 53) (hb' : whole' ≤ 2 ^ 53)
    (hshare : part * whole' = part' * whole) :
    (percentage part whole : Float) = percentage part' whole' := by
  have hratio : ratio part whole = ratio part' whole' := by
    rw [ratio, ratio, rounded_natCast_of_le hb, rounded_natCast_of_le hb',
      rounded_natCast_of_le (h.trans hb), rounded_natCast_of_le (h'.trans hb'),
      div_eq_div_iff (by positivity) (by positivity)]
    exact_mod_cast hshare
  rw [percentage_eq_ofRat hpos h (by omega), percentage_eq_ofRat hpos' h' (by omega), quotient,
    quotient, hratio]

/-- The floors that are missed by a share of exactly as many percent. -/
def missedFloors : List ℕ := [29, 57, 58]

/-- One hundred times the quotient of a floor and one hundred falls short of the
floor for these alone. -/
theorem ofNat_le_percentage_self_iff :
    ∀ floor ≤ 100, Float.ofNat floor ≤ percentage floor 100 ↔ floor ∉ missedFloors := by
  decide +kernel

/-- A share of exactly as many percent as the floor. -/
theorem ofNat_le_percentage_of_eq (hpos : 0 < whole) (h : part ≤ whole) (hb : whole ≤ 2 ^ 53)
    (hfloor : floor ≤ 100) (heq : floor * whole = 100 * part) :
    Float.ofNat floor ≤ percentage part whole ↔ floor ∉ missedFloors := by
  rw [percentage_congr hpos (by norm_num) h hfloor hb (by norm_num) (by omega)]
  exact ofNat_le_percentage_self_iff floor hfloor

end Report

namespace Tally

open Report

variable {t : Tally} {floor : ℕ}

/-- **Whether a tally reaches a whole number of percent.** Wherever the exact
percentage is not within 2^-44 of the floor, the report is right about it. Up to
2^44 files it is right about every percentage but one: a coverage of exactly 29,
57 or 58 percent is said not to reach that floor. -/
theorem meets_iff_percent (hpos : 0 < t.total) (hle : t.adequate ≤ t.total)
    (hb : t.total < 2 ^ 64) (hfloor : floor ≤ 100) :
    ((t.total : ℤ) ≤ 2 ^ 44 * |100 * (t.adequate : ℤ) - floor * t.total| →
      (t.report.meets (Float.ofNat floor) = true ↔ floor * t.total ≤ 100 * t.adequate)) ∧
    (t.total ≤ 2 ^ 44 →
      (t.report.meets (Float.ofNat floor) = true ↔ floor * t.total ≤ 100 * t.adequate ∧
        ¬ (floor * t.total = 100 * t.adequate ∧ floor ∈ missedFloors))) := by
  have hmeets : t.report.meets (Float.ofNat floor) = true ↔
      Float.ofNat floor ≤ percentage t.adequate t.total := decide_eq_true_iff
  rw [hmeets]
  refine ⟨fun hfar => ofNat_le_percentage_of_far hpos hle hb hfloor hfar, fun hfew => ?_⟩
  rcases eq_or_ne (floor * t.total) (100 * t.adequate) with heq | hne
  · rw [ofNat_le_percentage_of_eq hpos hle (by omega) hfloor heq]
    exact ⟨fun hreach => ⟨heq.le, fun hmissed => hreach hmissed.2⟩,
      fun hreach hmissed => hreach.2 ⟨heq, hmissed⟩⟩
  · -- counts that differ do so by one at least
    have hapart : 1 ≤ |100 * (t.adequate : ℤ) - floor * t.total| :=
      Int.one_le_abs (sub_ne_zero.mpr fun hcast => hne (by exact_mod_cast hcast.symm))
    rw [ofNat_le_percentage_of_far hpos hle hb hfloor (by omega)]
    exact ⟨fun hreach => ⟨hreach, fun hmissed => hne hmissed.1⟩, fun hreach => hreach.1⟩

/-- Twenty-nine adequate files of a hundred reach twenty-eight percent, and are
said to miss twenty-nine. -/
theorem meets_iff_percent_twentyNine :
    let t : Tally := { empty with total := 100, documented := 29, adequate := 29 }
    0 < t.total ∧ t.adequate ≤ t.total ∧ t.total < 2 ^ 64 ∧
      t.report.meets (Float.ofNat 28) = true ∧
      29 * t.total ≤ 100 * t.adequate ∧ t.report.meets (Float.ofNat 29) = false := by
  intro t
  have hpos : 0 < t.total := by decide
  have hle : t.adequate ≤ t.total := by decide
  have hb : t.total < 2 ^ 64 := by decide
  have hfar := (meets_iff_percent hpos hle hb (by decide : 28 ≤ 100)).1 (by decide)
  have hnear := (meets_iff_percent hpos hle hb (by decide : 29 ≤ 100)).2 (by decide)
  refine ⟨hpos, hle, hb, hfar.mpr (by decide), by decide, ?_⟩
  rw [Bool.eq_false_iff]
  exact fun hreach => (hnear.mp hreach).2 (by decide)

end Tally

end DocCoverage
