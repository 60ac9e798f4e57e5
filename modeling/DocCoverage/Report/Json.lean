import DocCoverage.Json.Printer
import DocCoverage.Report.Basic
import DocCoverage.Settings.Json
/-!
# Reports — as JSON

A report is written with the time of the run. The fields stand in a fixed
order, and the entries of the breakdowns in the order of the priorities and
file types. Reading needs all fields.
-/

namespace DocCoverage

/-- A report and the time of the run. -/
structure DatedReport where
  report : Report
  timestamp : String

/-! ## Gaps -/

namespace Gap

/-- The names of the fields, in order. -/
def fieldNames : List String :=
  ["code_file", "expected_doc_path", "gap_type", "file_type", "priority", "required_sections",
    "quality_issues", "estimated_effort"]

/-- A gap as JSON. -/
def toJson (g : Gap) : Json :=
  .obj (fieldNames.zip [
    .str g.codeFile.text, .str g.document.text, .str g.kind.key, .str g.fileType.key,
    .str g.priority.key, .strings g.requiredSections, .strings g.issues, .str g.effort.key])

/-- Read a gap. -/
def ofJson? (value : Json) : Option Gap := do
  match ← value.allFields? fieldNames with
  | [codeFile, document, kind, fileType, priority, required, issues, effort] =>
    return {
      codeFile := ⟨← codeFile.asString?⟩
      document := ⟨← document.asString?⟩
      kind := ← GapKind.ofJson? kind
      fileType := ← FileType.ofJson? fileType
      priority := ← Priority.ofJson? priority
      requiredSections := ← required.asStrings?
      issues := ← issues.asStrings?
      effort := ← Effort.ofJson? effort }
  | _ => none

end Gap

namespace GapCounts

/-- Counts as JSON. -/
def toJson (c : GapCounts) : Json :=
  .obj [("missing", .nat c.missing), ("inadequate", .nat c.inadequate)]

/-- Read counts. -/
def ofJson? (value : Json) : Option GapCounts := do
  match ← value.allFields? ["missing", "inadequate"] with
  | [missing, inadequate] =>
    return { missing := ← missing.asNat64?, inadequate := ← inadequate.asNat64? }
  | _ => none

end GapCounts

/-! ## Breakdowns -/

namespace Breakdown

variable {κ α : Type}

/-- The entries of a partial map under these keys, in order. -/
def toFields (keys : List κ) (name : κ → String) (toJson : α → Json) (map : κ → Option α) :
    List (String × Json) :=
  keys.filterMap fun key => (map key).map fun value => (name key, toJson value)

/-- Read a partial map; every name has to be that of a key. -/
def ofJson? (name : κ → String) (ofName? : String → Option κ) (item? : Json → Option α)
    (value : Json) : Option (κ → Option α) := do
  let entries ← value.asMap? item?
  if entries.all fun (key, _) => (ofName? key).isSome then
    return fun key => tableValue? entries (name key)
  else none

end Breakdown

/-! ## Reports -/

namespace Report

/-- The names of the fields, in order. -/
def fieldNames : List String :=
  ["total_code_files", "documented_files", "adequately_documented", "missing_documentation",
    "inadequate_documentation", "coverage_percentage", "quality_score", "gaps", "by_priority",
    "by_file_type"]

/-- The fields of a report, in order. -/
def toFields (r : Report) : List (String × Json) :=
  fieldNames.zip [
    .nat r.total, .nat r.documented, .nat r.adequate, .nat r.missing, .nat r.inadequate,
    .ofFloat r.coverage, .ofFloat r.quality, .arr (r.gaps.map Gap.toJson),
    .obj (Breakdown.toFields Priority.all Priority.key Json.nat r.byPriority),
    .obj (Breakdown.toFields FileType.all FileType.key GapCounts.toJson r.byFileType)]

end Report

namespace DatedReport

/-- The names of the fields, in order. -/
def fieldNames : List String := Report.fieldNames ++ ["timestamp"]

/-- A dated report as JSON. -/
def toJson (d : DatedReport) : Json :=
  .obj (d.report.toFields ++ [("timestamp", .str d.timestamp)])

/-- Read a dated report. -/
def ofJson? (value : Json) : Option DatedReport := do
  match ← value.allFields? fieldNames with
  | [total, documented, adequate, missing, inadequate, coverage, quality, gaps, byPriority,
      byFileType, timestamp] =>
    return {
      report := {
        total := ← total.asNat64?
        documented := ← documented.asNat64?
        adequate := ← adequate.asNat64?
        missing := ← missing.asNat64?
        inadequate := ← inadequate.asNat64?
        coverage := ← coverage.asFloat?
        quality := ← quality.asFloat?
        gaps := ← gaps.asList? Gap.ofJson?
        byPriority := ← Breakdown.ofJson? Priority.key Priority.ofKey? Json.asNat64? byPriority
        byFileType :=
          ← Breakdown.ofJson? FileType.key FileType.ofKey? GapCounts.ofJson? byFileType }
      timestamp := ← timestamp.asString? }
  | _ => none

/-- The report on one line. -/
def compact (d : DatedReport) : String := d.toJson.compact

/-- The report with one member a line. -/
def pretty (d : DatedReport) : String := d.toJson.pretty

end DatedReport

end DocCoverage
