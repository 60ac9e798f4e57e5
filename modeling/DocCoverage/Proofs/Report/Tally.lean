import DocCoverage.Proofs.Path.Order
import DocCoverage.Proofs.Report.Percentage
import DocCoverage.Report.Tally
/-!
# Reports — what a tally adds up to

A tally is balanced as long as the gaps that are recorded say what they are:
adequate, missing and inadequate files are all there are, and the documented
ones are those that are not missing (`balanced_ofOutcomes`). What it has
recorded can be read off the outcomes field by field (`ofOutcomes_eq`), and
sorting leaves gaps in place whose paths increase.
-/

namespace DocCoverage

namespace Outcome

/-- The gap of an outcome. -/
def gap? : Outcome → Option Gap
  | adequate _ => none
  | inadequate _ gap => some gap
  | missing gap => some gap

/-- The score of the document. -/
def score? : Outcome → Option Float
  | adequate score => some score
  | inadequate score _ => some score
  | missing _ => none

/-- Whether the document is good enough. -/
def isAdequate (outcome : Outcome) : Bool := outcome.gap?.isNone

/-- Whether there is a document. -/
def isDocumented (outcome : Outcome) : Bool := outcome.score?.isSome

/-- The gap of a consistent outcome is of the kind of the outcome. -/
def Consistent : Outcome → Prop
  | adequate _ => True
  | inadequate _ gap => gap.kind = .inadequate
  | missing gap => gap.kind = .missing

end Outcome

namespace GapCounts

theorem missing_ofGaps_append (gaps more : List Gap) :
    (ofGaps (gaps ++ more)).missing = (ofGaps gaps).missing + (ofGaps more).missing :=
  List.countP_append

theorem inadequate_ofGaps_append (gaps more : List Gap) :
    (ofGaps (gaps ++ more)).inadequate = (ofGaps gaps).inadequate + (ofGaps more).inadequate :=
  List.countP_append

theorem ofGaps_missing {gap : Gap} (h : gap.kind = .missing) : ofGaps [gap] = ⟨1, 0⟩ := by
  simp [ofGaps, h]

theorem ofGaps_inadequate {gap : Gap} (h : gap.kind = .inadequate) : ofGaps [gap] = ⟨0, 1⟩ := by
  simp [ofGaps, h]

/-- There is no third kind of gap. -/
theorem missing_add_inadequate (gaps : List Gap) :
    (ofGaps gaps).missing + (ofGaps gaps).inadequate = gaps.length := by
  rw [List.length_eq_countP_add_countP fun gap => gap.kind == .missing]
  refine congrArg _ (List.countP_congr fun gap _ => ?_)
  cases gap.kind <;> decide

end GapCounts

namespace Tally

/-! ## Balance -/

/-- The counts of a tally agree with the kinds of its gaps. -/
structure Balanced (t : Tally) : Prop where
  total : t.total =
    t.adequate + (GapCounts.ofGaps t.gaps).missing + (GapCounts.ofGaps t.gaps).inadequate
  documented : t.documented = t.adequate + (GapCounts.ofGaps t.gaps).inadequate

theorem balanced_empty : empty.Balanced := ⟨rfl, rfl⟩

/-- **Recording a consistent outcome keeps a tally balanced.** -/
theorem Balanced.record {t : Tally} {outcome : Outcome} (ht : t.Balanced)
    (ho : outcome.Consistent) : (t.record outcome).Balanced := by
  obtain ⟨htotal, hdoc⟩ := ht
  cases outcome with
  | adequate score => exact ⟨by simp only [Tally.record]; omega, by simp only [Tally.record]; omega⟩
  | inadequate score gap =>
    have hmissing := GapCounts.missing_ofGaps_append t.gaps [gap]
    have hinadequate := GapCounts.inadequate_ofGaps_append t.gaps [gap]
    simp only [GapCounts.ofGaps_inadequate ho] at hmissing hinadequate
    exact ⟨by simp only [Tally.record]; omega, by simp only [Tally.record]; omega⟩
  | missing gap =>
    have hmissing := GapCounts.missing_ofGaps_append t.gaps [gap]
    have hinadequate := GapCounts.inadequate_ofGaps_append t.gaps [gap]
    simp only [GapCounts.ofGaps_missing ho] at hmissing hinadequate
    exact ⟨by simp only [Tally.record]; omega, by simp only [Tally.record]; omega⟩

theorem Balanced.foldl {outcomes : List Outcome} {t : Tally} (ht : t.Balanced)
    (h : ∀ outcome ∈ outcomes, outcome.Consistent) : (outcomes.foldl Tally.record t).Balanced := by
  induction outcomes generalizing t with
  | nil => exact ht
  | cons outcome rest ih =>
    exact ih (ht.record (h outcome List.mem_cons_self)) fun o ho => h o (List.mem_cons_of_mem _ ho)

/-- **The tally of consistent outcomes is balanced.** -/
theorem balanced_ofOutcomes {outcomes : List Outcome}
    (h : ∀ outcome ∈ outcomes, outcome.Consistent) : (ofOutcomes outcomes).Balanced :=
  balanced_empty.foldl h

theorem Balanced.adequate_le {t : Tally} (ht : t.Balanced) : t.adequate ≤ t.total := by
  have htotal := ht.total
  omega

/-- All files are adequate if there is no gap. -/
theorem Balanced.adequate_eq_iff {t : Tally} (ht : t.Balanced) :
    t.adequate = t.total ↔ t.gaps = [] := by
  have htotal := ht.total
  have hkinds := GapCounts.missing_add_inadequate t.gaps
  rw [← List.length_eq_zero_iff]
  omega

/-! ## What is recorded -/

/-- What recording outcomes adds to a tally, field by field. -/
theorem foldl_record (t : Tally) (outcomes : List Outcome) :
    outcomes.foldl record t =
      { total := t.total + outcomes.length
        documented := t.documented + outcomes.countP Outcome.isDocumented
        adequate := t.adequate + outcomes.countP Outcome.isAdequate
        scores := (outcomes.filterMap Outcome.score?).foldl (· + ·) t.scores
        gaps := t.gaps ++ outcomes.filterMap Outcome.gap? } := by
  induction outcomes generalizing t with
  | nil => simp
  -- the outcomes that follow are recorded in a tally that has this one already
  | cons outcome rest ih =>
    rw [List.foldl_cons, ih]
    cases outcome <;>
      simp [record, Outcome.isDocumented, Outcome.isAdequate, Outcome.score?, Outcome.gap?,
        List.countP_cons, List.filterMap_cons, Nat.add_assoc, Nat.add_comm 1]

/-- **A tally field by field.** -/
theorem ofOutcomes_eq (outcomes : List Outcome) :
    ofOutcomes outcomes =
      { total := outcomes.length
        documented := outcomes.countP Outcome.isDocumented
        adequate := outcomes.countP Outcome.isAdequate
        scores := (outcomes.filterMap Outcome.score?).foldl (· + ·) 0.0
        gaps := outcomes.filterMap Outcome.gap? } := by
  rw [ofOutcomes, foldl_record]
  simp [empty]

theorem sorted_of_increasing {gaps : List Gap} (h : Path.Increasing (gaps.map Gap.codeFile)) :
    sorted gaps = gaps := by
  refine List.mergeSort_of_pairwise ((List.pairwise_map.mp h).imp fun hab => ?_)
  rw [Path.before_asymm hab, Bool.not_false]

/-! ## Coverage -/

section Coverage

variable {t : Tally}

theorem Balanced.coverage_bounds (ht : t.Balanced) (hb : t.total < 2 ^ 64) :
    0.0 ≤ t.report.coverage ∧ t.report.coverage ≤ 100.0 :=
  ⟨Report.zero_le_percentage ht.adequate_le hb, Report.percentage_le_hundred ht.adequate_le hb⟩

theorem Balanced.coverage_of_no_gaps (ht : t.Balanced) (hb : t.total < 2 ^ 64)
    (hgaps : t.gaps = []) : t.report.coverage = 100.0 := by
  change Report.percentage t.adequate t.total = 100.0
  rw [ht.adequate_eq_iff.mpr hgaps]
  exact Report.percentage_self hb

theorem Balanced.coverage_iff_ofNat (ht : t.Balanced) (hb : t.total < 2 ^ 64) :
    t.report.coverage = 100.0 ↔ Float.ofNat t.adequate = Float.ofNat t.total := by
  have hle := ht.adequate_le
  rw [Binary64.float_ofNat_eq, Binary64.float_ofNat_eq, Binary64.ofRat_inj
    (Binary64.inRange_natCast (by omega)) (Binary64.inRange_natCast hb)]
  exact Report.percentage_eq_hundred_iff_rounded hle hb

theorem Balanced.coverage_iff (ht : t.Balanced) (hb : t.total ≤ 2 ^ 53) :
    t.report.coverage = 100.0 ↔ t.gaps = [] :=
  (Report.percentage_eq_hundred_iff ht.adequate_le hb).trans ht.adequate_eq_iff

theorem coverage_le_of_adequate_le {u : Tally} (htotal : u.total = t.total) (ht : t.Balanced)
    (hle : u.adequate ≤ t.adequate) (hb : t.total < 2 ^ 64) :
    u.report.coverage ≤ t.report.coverage := by
  change Report.percentage u.adequate u.total ≤ Report.percentage t.adequate t.total
  rw [htotal]
  exact Report.percentage_mono hle ht.adequate_le hb

end Coverage

end Tally

end DocCoverage
