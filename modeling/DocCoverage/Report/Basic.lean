import DocCoverage.Measure
import DocCoverage.Report.Gap
/-!
# Reports — the result of a run

A report says how many files need documentation, how many of them have it,
and which do not. The breakdowns by priority and by file type are partial
maps: a priority or a file type that they do not mention has no entry.
-/

namespace DocCoverage

/-- The result of a run. -/
structure Report where
  /-- The files that need documentation. -/
  total : Nat
  /-- Those that have a meaningful document. -/
  documented : Nat
  /-- Those whose document is good enough. -/
  adequate : Nat
  missing : Nat
  inadequate : Nat
  /-- The adequate ones, in percent of all. -/
  coverage : Float
  /-- The mean score of the documents. -/
  quality : Float
  gaps : List Gap
  byPriority : Priority → Option Nat
  byFileType : FileType → Option GapCounts

namespace Report

/-- The share of a count in another, in percent; of nothing, all is
covered. -/
def percentage {α : Type} [Measure α] (part whole : Nat) : α :=
  if whole = 0 then 100.0 else Measure.ofCount part / Measure.ofCount whole * 100.0

/-- The mean of a sum over a number of terms, zero if there are none. -/
def mean {α : Type} [Measure α] (sum : α) (count : Nat) : α :=
  if count = 0 then 0.0 else sum / Measure.ofCount count

/-- The report of a run with nothing to check. -/
def perfect : Report where
  total := 0
  documented := 0
  adequate := 0
  missing := 0
  inadequate := 0
  coverage := 100.0
  quality := 1.0
  gaps := []
  byPriority := fun _ => some 0
  byFileType := fun _ => none

/-- Whether the coverage reaches a floor. -/
def meets (report : Report) (floor : Float) : Bool := decide (floor ≤ report.coverage)

end Report

end DocCoverage
