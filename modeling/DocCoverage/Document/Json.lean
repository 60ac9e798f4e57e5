import DocCoverage.Document.Quality
import DocCoverage.Settings.Json
/-!
# Documents — quality as JSON

All fields of a quality are written, and reading needs all of them.
-/

namespace DocCoverage

namespace Quality

/-- The names of the fields, in order. -/
def fieldNames : List String :=
  ["has_overview", "has_usage_examples", "has_api_documentation", "has_installation_guide",
    "has_configuration_docs", "has_troubleshooting", "has_code_examples", "has_proper_headings",
    "word_count", "line_count", "quality_score", "missing_sections"]

/-- The fields as JSON, in order. -/
def toFields (q : Quality) : List (String × Json) :=
  fieldNames.zip [
    .bool q.features.hasOverview, .bool q.features.hasUsage, .bool q.features.hasReference,
    .bool q.features.hasInstallation, .bool q.features.hasConfiguration,
    .bool q.features.hasTroubleshooting, .bool q.features.hasCode, .bool q.features.hasHeadings,
    .nat q.features.words, .nat q.features.lines, .ofFloat q.score, .strings q.missing]

/-- The quality as JSON. -/
def toJson (q : Quality) : Json := .obj q.toFields

/-- Read a quality. -/
def ofJson? (value : Json) : Option Quality := do
  match ← value.allFields? fieldNames with
  | [overview, usage, reference, installation, configuration, troubleshooting, code, headings,
      words, lines, score, missing] =>
    return {
      features := {
        hasOverview := ← overview.asBool?
        hasUsage := ← usage.asBool?
        hasReference := ← reference.asBool?
        hasInstallation := ← installation.asBool?
        hasConfiguration := ← configuration.asBool?
        hasTroubleshooting := ← troubleshooting.asBool?
        hasCode := ← code.asBool?
        hasHeadings := ← headings.asBool?
        words := ← words.asNat64?
        lines := ← lines.asNat64? }
      score := ← score.asFloat?
      missing := ← missing.asStrings? }
  | _ => none

end Quality

end DocCoverage
