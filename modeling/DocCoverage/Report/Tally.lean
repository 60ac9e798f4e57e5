import DocCoverage.Report.Basic
/-!
# Reports — tallies

Every file that needs documentation has one outcome. A tally sums outcomes
up, and tallies can be merged. Its report lists the gaps in the order of
their paths and counts them.
-/

namespace DocCoverage

/-- The outcome for one file. -/
inductive Outcome where
  /-- The document is good enough. -/
  | adequate (score : Float)
  /-- The document is too weak. -/
  | inadequate (score : Float) (gap : Gap)
  /-- There is no document. -/
  | missing (gap : Gap)
deriving Repr, Inhabited

/-- Outcomes summed up. -/
structure Tally where
  total : Nat
  documented : Nat
  adequate : Nat
  scores : Float
  gaps : List Gap
deriving Repr, Inhabited

namespace Tally

/-- No outcome. -/
def empty : Tally := ⟨0, 0, 0, 0.0, []⟩

/-- One more outcome. -/
def record (t : Tally) : Outcome → Tally
  | .adequate score =>
    { t with
      total := t.total + 1
      documented := t.documented + 1
      adequate := t.adequate + 1
      scores := t.scores + score }
  | .inadequate score gap =>
    { t with
      total := t.total + 1
      documented := t.documented + 1
      scores := t.scores + score
      gaps := t.gaps ++ [gap] }
  | .missing gap => { t with total := t.total + 1, gaps := t.gaps ++ [gap] }

/-- The tally of outcomes, one after the other. -/
def ofOutcomes (outcomes : List Outcome) : Tally := outcomes.foldl record empty

/-- Two tallies in one. -/
def merge (t u : Tally) : Tally where
  total := t.total + u.total
  documented := t.documented + u.documented
  adequate := t.adequate + u.adequate
  scores := t.scores + u.scores
  gaps := t.gaps ++ u.gaps

/-- Gaps in the order of their paths; those of one path keep their order. -/
def sorted (gaps : List Gap) : List Gap :=
  gaps.mergeSort fun a b => !b.codeFile.before a.codeFile

/-- The report of a tally. -/
def report (t : Tally) : Report :=
  let counts := GapCounts.ofGaps t.gaps
  { total := t.total
    documented := t.documented
    adequate := t.adequate
    missing := counts.missing
    inadequate := counts.inadequate
    coverage := Report.percentage t.adequate t.total
    quality := Report.mean t.scores t.documented
    gaps := sorted t.gaps
    byPriority := fun priority => some (t.gaps.countP fun gap => gap.priority == priority)
    byFileType := fun fileType =>
      let ofType := t.gaps.filter fun gap => gap.fileType == fileType
      if ofType.isEmpty then none else some (GapCounts.ofGaps ofType) }

end Tally

end DocCoverage
