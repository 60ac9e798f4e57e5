import DocCoverage.Proofs.Binary64.Error
import DocCoverage.Proofs.Binary64.Values
import DocCoverage.Report.Tally
/-!
# Reports — how tallies are grouped when they are merged

Partial tallies are merged two at a time, in any grouping. Counts add up and
gaps follow one another, so the grouping does not matter for them
(`Grouping.tally_eq`). The scores are added as floating-point numbers, and each
addition rounds: the sum of the scores is that of the parts up to one part in
2^53 for each level of the grouping (`Grouping.exists_scores`), and it is exact
as long as the scores are multiples of one power of two, with few enough digits
for their sum (`Grouping.hasValue_scores`).
-/

namespace DocCoverage

open Binary64

/-- A way to merge tallies into one, in their order. -/
inductive Grouping where
  /-- One tally, as it is. -/
  | part (tally : Tally)
  /-- What comes of one grouping, merged with what comes of another. -/
  | merged (left right : Grouping)

namespace Grouping

variable {grouping other : Grouping} {worth : Tally → ℚ} {e : ℤ}

/-- The tallies that are merged. -/
def parts : Grouping → List Tally
  | part tally => [tally]
  | merged left right => left.parts ++ right.parts

/-- The tally that comes of it. -/
def tally : Grouping → Tally
  | part tally => tally
  | merged left right => left.tally.merge right.tally

/-- How often a part is merged with others at most. -/
def depth : Grouping → ℕ
  | part _ => 0
  | merged left right => max left.depth right.depth + 1

/-- What the parts are worth together. -/
def total (grouping : Grouping) (worth : Tally → ℚ) : ℚ := (grouping.parts.map worth).sum

theorem total_merged (left right : Grouping) (worth : Tally → ℚ) :
    (merged left right).total worth = left.total worth + right.total worth := by
  rw [total, parts, List.map_append, List.sum_append]
  rfl

theorem total_congr (hparts : grouping.parts = other.parts) (worth : Tally → ℚ) :
    grouping.total worth = other.total worth := by
  rw [total, total, hparts]

/-! ## Counts and gaps -/

/-- **What comes of a grouping is what the parts have**, the sum of the scores
aside. -/
theorem tally_eq (grouping : Grouping) :
    grouping.tally =
      { total := (grouping.parts.map Tally.total).sum
        documented := (grouping.parts.map Tally.documented).sum
        adequate := (grouping.parts.map Tally.adequate).sum
        scores := grouping.tally.scores
        gaps := grouping.parts.flatMap Tally.gaps } := by
  induction grouping with
  | part t => simp [parts, tally]
  | merged left right ihleft ihright =>
    rw [tally, ihleft, ihright]
    simp [Tally.merge, parts]

/-- **Groupings of the same parts differ in the sum of the scores only.** -/
theorem tally_congr (hparts : grouping.parts = other.parts) :
    grouping.tally = { other.tally with scores := grouping.tally.scores } := by
  rw [tally_eq grouping, tally_eq other, hparts]

/-- So their reports differ in the mean score only. -/
theorem report_congr (hparts : grouping.parts = other.parts) :
    grouping.tally.report =
      { other.tally.report with quality := grouping.tally.report.quality } := by
  rw [tally_congr hparts]
  rfl

/-- **Merging is associative**, the sum of the scores aside. -/
theorem merge_merge (a b c : Tally) :
    (a.merge b).merge c =
      { a.merge (b.merge c) with scores := a.scores + b.scores + c.scores } := by
  have hparts : (merged (merged (part a) (part b)) (part c)).parts =
      (merged (part a) (merged (part b) (part c))).parts := rfl
  exact tally_congr hparts

/-! ## Scores -/

/-- One part in 2^53. -/
def unit : ℚ := 1 / 2 ^ 53

/-- What the sums of the scores of the parts are worth, as numbers. -/
def Worth (grouping : Grouping) (worth : Tally → ℚ) : Prop :=
  ∀ t ∈ grouping.parts, HasValue t.scores (worth t)

theorem Worth.left {left right : Grouping} (h : (merged left right).Worth worth) :
    left.Worth worth :=
  fun t ht => h t (List.mem_append_left _ ht)

theorem Worth.right {left right : Grouping} (h : (merged left right).Worth worth) :
    right.Worth worth :=
  fun t ht => h t (List.mem_append_right _ ht)

theorem Worth.total_nonneg (h : grouping.Worth worth) : 0 ≤ grouping.total worth := by
  refine List.sum_nonneg fun v hv => ?_
  obtain ⟨t, ht, rfl⟩ := List.mem_map.mp hv
  exact (h t ht).nonneg

theorem unit_bounds : 0 < unit ∧ unit < 1 := by norm_num [unit]

/-- **One addition**: what is known of two numbers up to the same factors is
known of their sum up to one part in 2^53 more. -/
theorem add_scores {x y : Float} {v w a b low high : ℚ} (hx : HasValue x v) (hy : HasValue y w)
    (hv : low * a ≤ v ∧ v ≤ high * a) (hw : low * b ≤ w ∧ w ≤ high * b)
    (hbound : high * (a + b) ≤ 2 ^ 64) :
    ∃ s, HasValue (x + y) s ∧ low * (1 - unit) * (a + b) ≤ s ∧ s ≤ high * (1 + unit) * (a + b) := by
  have hnonneg : 0 ≤ v + w := add_nonneg hx.nonneg hy.nonneg
  have hlow : low * (a + b) ≤ v + w := by linarith [hv.1, hw.1]
  have hhigh : v + w ≤ high * (a + b) := by linarith [hv.2, hw.2]
  refine ⟨rounded (v + w), hx.add hy (hhigh.trans hbound), ?_, ?_⟩
  · have herror := (abs_le.mp (abs_rounded_add_sub_le hx.kept hy.kept)).1
    calc low * (1 - unit) * (a + b) = (1 - unit) * (low * (a + b)) := by ring
      _ ≤ (1 - unit) * (v + w) := mul_le_mul_of_nonneg_left hlow (by norm_num [unit])
      _ ≤ rounded (v + w) := by
          rw [unit]
          linarith
  · have herror := (abs_le.mp (abs_rounded_add_sub_le hx.kept hy.kept)).2
    calc rounded (v + w) ≤ (1 + unit) * (v + w) := by
          rw [unit]
          linarith
      _ ≤ (1 + unit) * (high * (a + b)) := mul_le_mul_of_nonneg_left hhigh (by norm_num [unit])
      _ = high * (1 + unit) * (a + b) := by ring

/-- **The sum of the scores is that of the parts** up to one part in 2^53 for each
level of the grouping. -/
theorem exists_scores (hworth : grouping.Worth worth) {levels : ℕ}
    (hdepth : grouping.depth ≤ levels)
    (hbound : (1 + unit) ^ levels * grouping.total worth ≤ 2 ^ 64) :
    ∃ s, HasValue grouping.tally.scores s ∧ (1 - unit) ^ levels * grouping.total worth ≤ s ∧
      s ≤ (1 + unit) ^ levels * grouping.total worth := by
  obtain ⟨hunit, hone⟩ := unit_bounds
  induction grouping generalizing levels with
  | part t =>
    have hvalue := hworth t List.mem_cons_self
    have htotal : (part t).total worth = worth t := by simp [total, parts]
    have hlow : (1 - unit) ^ levels ≤ 1 := pow_le_one₀ (by linarith) (by linarith)
    have hhigh : 1 ≤ (1 + unit) ^ levels := one_le_pow₀ (by linarith)
    rw [htotal]
    exact ⟨worth t, hvalue, mul_le_of_le_one_left hvalue.nonneg hlow,
      le_mul_of_one_le_left hvalue.nonneg hhigh⟩
  | merged left right ihleft ihright =>
    cases levels with
    | zero => exact absurd hdepth (Nat.not_succ_le_zero _)
    | succ n =>
      have hdepths := max_le_iff.mp (Nat.le_of_succ_le_succ hdepth)
      have hleft := hworth.left.total_nonneg
      have hright := hworth.right.total_nonneg
      have hpow : 1 ≤ (1 + unit) ^ n := one_le_pow₀ (by linarith)
      have hgrow : (1 + unit) ^ n * (left.total worth + right.total worth) ≤ 2 ^ 64 :=
        calc (1 + unit) ^ n * (left.total worth + right.total worth)
            ≤ (1 + unit) ^ (n + 1) * (left.total worth + right.total worth) := by
              refine mul_le_mul_of_nonneg_right ?_ (add_nonneg hleft hright)
              exact pow_le_pow_right₀ (by linarith) (Nat.le_succ n)
          _ ≤ 2 ^ 64 := by rwa [← total_merged]
      obtain ⟨v, hv, hvrange⟩ := ihleft hworth.left hdepths.1 (by nlinarith)
      obtain ⟨w, hw, hwrange⟩ := ihright hworth.right hdepths.2 (by nlinarith)
      rw [total_merged, pow_succ, pow_succ]
      exact add_scores hv hw hvrange hwrange hgrow

/-- **The sum of the scores is exact** if the scores are multiples of one power of
two with few enough digits for their sum. -/
theorem hasValue_scores (hworth : grouping.Worth worth) (he : -1074 ≤ e)
    (hgrid : ∀ t ∈ grouping.parts, ∃ m : ℕ, worth t = m * 2 ^ e)
    (hdigits : grouping.total worth < 2 ^ 53 * 2 ^ e) (hbound : grouping.total worth ≤ 2 ^ 64) :
    HasValue grouping.tally.scores (grouping.total worth) ∧
      ∃ m : ℕ, grouping.total worth = m * 2 ^ e := by
  induction grouping with
  | part t =>
    have htotal : (part t).total worth = worth t := by simp [total, parts]
    rw [htotal]
    exact ⟨hworth t List.mem_cons_self, hgrid t List.mem_cons_self⟩
  | merged left right ihleft ihright =>
    have hleft := hworth.left.total_nonneg
    have hright := hworth.right.total_nonneg
    have hsum := total_merged left right worth
    obtain ⟨hv, m, hm⟩ := ihleft hworth.left (fun t ht => hgrid t (List.mem_append_left _ ht))
      (by linarith) (by linarith)
    obtain ⟨hw, n, hn⟩ := ihright hworth.right (fun t ht => hgrid t (List.mem_append_right _ ht))
      (by linarith) (by linarith)
    have hmul : (merged left right).total worth = (m + n : ℕ) * 2 ^ e := by
      rw [hsum, hm, hn, Nat.cast_add, add_mul]
    have hkept : rounded ((merged left right).total worth) = (merged left right).total worth := by
      rw [hmul] at hdigits ⊢
      have hlt : ((m + n : ℕ) : ℚ) < 2 ^ 53 := lt_of_mul_lt_mul_right hdigits (by positivity)
      exact rounded_mul_zpow (by exact_mod_cast hlt) he
    refine ⟨?_, m + n, hmul⟩
    have hadd := hv.add hw (hsum ▸ hbound)
    rwa [← hsum, hkept] at hadd

/-! ## Regrouping -/

/-- **Merging in another grouping** leaves counts, gaps and the report as they are,
except for the scores. These are those of the parts up to one part in 2^53 for
each level of either grouping, and the same if no digit of them is lost. -/
theorem regrouped (hparts : grouping.parts = other.parts) :
    grouping.tally = { other.tally with scores := grouping.tally.scores } ∧
    grouping.tally.report = { other.tally.report with quality := grouping.tally.report.quality } ∧
    (grouping.tally = other.tally ↔ grouping.tally.scores = other.tally.scores) ∧
    ∀ worth : Tally → ℚ, grouping.Worth worth →
      (∀ levels : ℕ, grouping.depth ≤ levels → other.depth ≤ levels →
        (1 + unit) ^ levels * grouping.total worth ≤ 2 ^ 64 →
        ∃ s s', HasValue grouping.tally.scores s ∧ HasValue other.tally.scores s' ∧
          |s - s'| ≤ ((1 + unit) ^ levels - (1 - unit) ^ levels) * grouping.total worth) ∧
      ∀ e : ℤ, -1074 ≤ e → (∀ t ∈ grouping.parts, ∃ m : ℕ, worth t = m * 2 ^ e) →
        grouping.total worth < 2 ^ 53 * 2 ^ e → grouping.total worth ≤ 2 ^ 64 →
        grouping.tally = other.tally := by
  have hiff : grouping.tally = other.tally ↔ grouping.tally.scores = other.tally.scores := by
    refine ⟨congrArg Tally.scores, fun h => ?_⟩
    rw [tally_congr hparts, h]
  refine ⟨tally_congr hparts, report_congr hparts, hiff, fun worth hworth => ?_⟩
  have hother : other.Worth worth := fun t ht => hworth t (hparts ▸ ht)
  have htotal := total_congr hparts worth
  refine ⟨fun levels hdepth hdepth' hbound => ?_, fun e he hgrid hdigits hbound => ?_⟩
  · obtain ⟨s, hs, hlow, hhigh⟩ := exists_scores hworth hdepth hbound
    obtain ⟨s', hs', hlow', hhigh'⟩ := exists_scores hother hdepth' (htotal ▸ hbound)
    rw [← htotal] at hlow' hhigh'
    refine ⟨s, s', hs, hs', ?_⟩
    rw [abs_le, sub_mul]
    constructor <;> linarith
  · have hvalue := (hasValue_scores hworth he hgrid hdigits hbound).1
    have hvalue' := (hasValue_scores hother he (fun t ht => hgrid t (hparts ▸ ht))
      (htotal ▸ hdigits) (htotal ▸ hbound)).1
    rw [hiff, hvalue.eq_ofRat, hvalue'.eq_ofRat, htotal]

/-- One adequate file with this score. -/
def single (score : Float) : Tally := Tally.empty.record (.adequate score)

/-- Three scores, the first two of them merged first. -/
def fromLeft : Grouping :=
  merged (merged (part (single 0.1)) (part (single 0.2))) (part (single 0.3))

/-- The same scores, the last two of them merged first. -/
def fromRight : Grouping :=
  merged (part (single 0.1)) (merged (part (single 0.2)) (part (single 0.3)))

/-- What these scores are worth. -/
def tenths (t : Tally) : ℚ :=
  if t.scores = 0.1 then (7205759403792794 : ℕ) * 2 ^ (-56 : ℤ)
  else if t.scores = 0.2 then (7205759403792794 : ℕ) * 2 ^ (-55 : ℤ)
  else (5404319552844595 : ℕ) * 2 ^ (-54 : ℤ)

theorem worth_tenths : fromLeft.Worth tenths := by
  have h₁ : HasValue (single 0.1).scores (tenths (single 0.1)) :=
    .of_stored (by norm_num) (by norm_num) (by norm_num) (by norm_num) rfl
  have h₂ : HasValue (single 0.2).scores (tenths (single 0.2)) :=
    .of_stored (by norm_num) (by norm_num) (by norm_num) (by norm_num) rfl
  have h₃ : HasValue (single 0.3).scores (tenths (single 0.3)) :=
    .of_stored (by norm_num) (by norm_num) (by norm_num) (by norm_num) rfl
  intro t ht
  simp only [fromLeft, parts, List.cons_append, List.nil_append, List.mem_cons, List.not_mem_nil,
    or_false] at ht
  rcases ht with rfl | rfl | rfl
  · exact h₁
  · exact h₂
  · exact h₃

theorem total_tenths_le : fromLeft.total tenths ≤ 3 := by
  have hone (t : Tally) : tenths t ≤ 1 := by
    unfold tenths
    split_ifs <;> norm_num
  have htotal : fromLeft.total tenths =
      tenths (single 0.1) + tenths (single 0.2) + tenths (single 0.3) := by
    simp [total, parts, fromLeft, add_assoc]
  linarith [hone (single 0.1), hone (single 0.2), hone (single 0.3)]

/-- The three scores add up to different sums, and to different mean scores. -/
theorem regrouped_tenths :
    fromLeft.parts = fromRight.parts ∧
    fromLeft.tally.scores ≠ fromRight.tally.scores ∧
    fromLeft.tally.report.quality ≠ fromRight.tally.report.quality ∧
    fromLeft.tally = { fromRight.tally with scores := fromLeft.tally.scores } ∧
    ∃ s s', HasValue fromLeft.tally.scores s ∧ HasValue fromRight.tally.scores s' ∧
      |s - s'| ≤ ((1 + unit) ^ 2 - (1 - unit) ^ 2) * fromLeft.total tenths := by
  have hparts : fromLeft.parts = fromRight.parts := rfl
  obtain ⟨hcounts, -, -, hworth⟩ := regrouped hparts
  have hbound : (1 + unit) ^ 2 * fromLeft.total tenths ≤ 2 ^ 64 :=
    calc (1 + unit) ^ 2 * fromLeft.total tenths ≤ (1 + unit) ^ 2 * 3 :=
          mul_le_mul_of_nonneg_left total_tenths_le (by positivity)
      _ ≤ 2 ^ 64 := by norm_num [unit]
  exact ⟨hparts, by decide +kernel, by decide +kernel, hcounts,
    (hworth tenths worth_tenths).1 2 (by decide) (by decide) hbound⟩

end Grouping

end DocCoverage
