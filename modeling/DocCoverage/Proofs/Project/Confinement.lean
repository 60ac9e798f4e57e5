import DocCoverage.Project.Changes
import DocCoverage.Proofs.Project.Verdict
/-!
# Projects — a check confined to a change

A check that is confined to the files of a change is the full check with the
other files left out. The verdict on a file is the same in both, and leaving
files out commutes with the order of the gaps, so that its report can be read
off the full run. This holds for whatever version control answers, also for
no answer at all.
-/

namespace DocCoverage

namespace Project

variable {project : Project} {files : List CodeFile} {touched : Path → Bool}

/-! ## Touched files -/

/-- The outcomes of the touched files in the full run. -/
def outcomesWhere (project : Project) (touched : Path → Bool) : List Outcome :=
  (project.fullRun.filter fun entry => touched entry.1.path).map (·.2)

/-- The discovered files that are touched. -/
def discoverWhere (project : Project) (touched : Path → Bool) : List CodeFile :=
  project.discover.filter fun file => touched file.path

theorem outcomesWhere_eq (project : Project) (touched : Path → Bool) :
    project.outcomesWhere touched = (project.discoverWhere touched).map project.verdict := by
  rw [outcomesWhere, fullRun_eq, List.filter_map, List.map_map]
  rfl

theorem increasing_discoverWhere :
    Path.Increasing ((project.discoverWhere touched).map CodeFile.path) :=
  increasing_filter increasing_discover _

/-- The gaps of the touched files are the gaps that are touched. -/
theorem gapsOf_filter : project.gapsOf (files.filter fun file => touched file.path) =
    (project.gapsOf files).filter fun gap => touched gap.codeFile := by
  rw [gapsOf, gapsOf, List.filterMap_filter, List.filter_filterMap]
  refine List.filterMap_congr fun file _ => ?_
  cases hgap : (project.verdict file).gap? with
  | none => simp
  | some gap =>
    rw [Option.filter_some, codeFile_of_verdict hgap]

/-! ## Confined reports -/

/-- **A report of the touched files only**, in terms of the full check. -/
structure ConfinedTo (project : Project) (touched : Path → Bool) (report : Report) : Prop where
  /-- Where nothing is touched, nothing is wrong. -/
  perfect : project.discoverWhere touched = [] → report = Report.perfect
  total : project.discoverWhere touched ≠ [] →
    report.total = (project.discoverWhere touched).length
  /-- The gaps are the same records, in the same order. -/
  gaps : project.discoverWhere touched ≠ [] →
    report.gaps = project.check.gaps.filter fun gap => touched gap.codeFile
  adequate : project.discoverWhere touched ≠ [] →
    report.adequate = (project.outcomesWhere touched).countP Outcome.isAdequate
  documented : project.discoverWhere touched ≠ [] →
    report.documented = (project.outcomesWhere touched).countP Outcome.isDocumented
  missing : project.discoverWhere touched ≠ [] →
    report.missing = ((project.outcomesWhere touched).filterMap Outcome.gap?).countP
      fun gap => gap.kind == .missing
  inadequate : project.discoverWhere touched ≠ [] →
    report.inadequate = ((project.outcomesWhere touched).filterMap Outcome.gap?).countP
      fun gap => gap.kind == .inadequate
  /-- Shares, means and breakdowns are those of these outcomes too. -/
  whole : project.discoverWhere touched ≠ [] →
    report = (Tally.ofOutcomes (project.outcomesWhere touched)).report
  /-- If every discovered file is touched, nothing is left out. -/
  all : (∀ file ∈ project.discover, touched file.path = true) → project.discover ≠ [] →
    report = project.check

/-- The report of the touched files, or the perfect one if there are
none. -/
def checkWhere (project : Project) (touched : Path → Bool) : Report :=
  if (project.discoverWhere touched).isEmpty then Report.perfect
  else project.checkFiles (project.discoverWhere touched)

theorem checkWhere_of_ne_nil (h : project.discoverWhere touched ≠ []) :
    project.checkWhere touched = (Tally.ofOutcomes (project.outcomesWhere touched)).report := by
  rw [checkWhere, if_neg (by rwa [List.isEmpty_iff]), checkFiles_of_increasing
    increasing_discoverWhere, outcomesWhere_eq, tallyOf]

theorem confinedTo_checkWhere : project.ConfinedTo touched (project.checkWhere touched) where
  perfect hnil := by rw [checkWhere, if_pos (by rwa [List.isEmpty_iff])]
  total hne := by
    rw [checkWhere_of_ne_nil hne, outcomesWhere_eq]
    exact total_tallyOf
  gaps hne := by
    rw [checkWhere, if_neg (by rwa [List.isEmpty_iff]), check,
      gaps_of_increasing increasing_discover, gaps_of_increasing increasing_discoverWhere,
      discoverWhere, gapsOf_filter]
  adequate hne := by
    rw [checkWhere_of_ne_nil hne, Tally.ofOutcomes_eq]
    rfl
  documented hne := by
    rw [checkWhere_of_ne_nil hne, Tally.ofOutcomes_eq]
    rfl
  missing hne := by
    rw [checkWhere_of_ne_nil hne, Tally.ofOutcomes_eq]
    rfl
  inadequate hne := by
    rw [checkWhere_of_ne_nil hne, Tally.ofOutcomes_eq]
    rfl
  whole := checkWhere_of_ne_nil
  all hall hne := by
    have hself : project.discoverWhere touched = project.discover := List.filter_eq_self.mpr hall
    rw [checkWhere, hself, if_neg (by rwa [List.isEmpty_iff]), check]

/-- Whether a path is listed, however it is spelled. -/
def listed (changed : List Path) (path : Path) : Bool := changed.any path.same

theorem checkChanged_eq (project : Project) (changed : List Path) :
    project.checkChanged changed = project.checkWhere (listed changed) := by
  have hlisted (path : Path) :
      (changed.map Path.components).contains path.components = listed changed path := by
    rw [List.contains_eq_any_beq, List.any_map, listed]
    rfl
  unfold checkChanged
  simp only [hlisted]
  rfl

/-- **The confined check is the full check, confined.** Version control that
does not answer leaves the perfect report. -/
theorem checkChanged_confined (project : Project) (range : DiffRange)
    (versionControl : List String → Option (List UInt8)) :
    project.ConfinedTo
        (listed (project.changedSources (versionControl range.arguments)))
        (project.checkChanged (project.changedSources (versionControl range.arguments))) ∧
      (versionControl range.arguments = none →
        project.checkChanged (project.changedSources (versionControl range.arguments)) =
          Report.perfect) := by
  refine ⟨?_, fun hnone => ?_⟩
  · rw [checkChanged_eq]
    exact confinedTo_checkWhere
  · rw [hnone, changedSources, checkChanged_eq]
    refine confinedTo_checkWhere.perfect ?_
    exact List.filter_eq_nil_iff.mpr fun _ _ => Bool.false_ne_true

end Project

end DocCoverage
