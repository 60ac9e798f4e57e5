import DocCoverage.Settings.Basic
/-!
# Settings — as JSON

Settings are written with all their fields. Read, a field that is not there
has its built-in value, and an unknown field is ignored; one field of the
wrong shape makes the whole unreadable.
-/

namespace DocCoverage

/-- The cut-offs as JSON. -/
def Thresholds.toJson (t : Thresholds) : Json :=
  Json.object [("low", .nat t.low), ("medium", .nat t.medium), ("high", .nat t.high),
    ("critical", .nat t.critical)]

/-- Read cut-offs. -/
def Thresholds.ofJson? (value : Json) : Option Thresholds := do
  match ← value.someFields? ["low", "medium", "high", "critical"] with
  | [low, medium, high, critical] =>
    return {
      low := ← Json.fieldOr? Json.asNat32? builtIn.low low
      medium := ← Json.fieldOr? Json.asNat32? builtIn.medium medium
      high := ← Json.fieldOr? Json.asNat32? builtIn.high high
      critical := ← Json.fieldOr? Json.asNat32? builtIn.critical critical }
  | _ => none

/-- A floating-point number as JSON: null unless it is finite. -/
def Json.ofFloat (x : Float) : Json := if x.isFinite then .float x else .null

/-- The standards as JSON. -/
def Standards.toJson (s : Standards) : Json :=
  Json.object [
    ("minimum_quality_score", .ofFloat s.minimumQuality),
    ("minimum_coverage_percentage", .ofFloat s.minimumCoverage),
    ("required_sections",
      Json.object (s.requiredSections.map fun (key, names) => (key, Json.strings names))),
    ("minimum_word_count",
      Json.object (s.minimumWords.map fun (key, words) => (key, Json.nat words)))]

/-- Read standards. -/
def Standards.ofJson? (value : Json) : Option Standards := do
  match ← value.someFields? ["minimum_quality_score", "minimum_coverage_percentage",
      "required_sections", "minimum_word_count"] with
  | [quality, coverage, required, words] =>
    return {
      minimumQuality := ← Json.fieldOr? Json.asFloat? builtIn.minimumQuality quality
      minimumCoverage := ← Json.fieldOr? Json.asFloat? builtIn.minimumCoverage coverage
      requiredSections :=
        ← Json.fieldOr? (Json.asMap? Json.asStrings?) builtIn.requiredSections required
      minimumWords := ← Json.fieldOr? (Json.asMap? Json.asNat32?) builtIn.minimumWords words }
  | _ => none

/-- The source rules as JSON. -/
def SourceRules.toJson (s : SourceRules) : Json :=
  Json.object [
    ("file_patterns",
      Json.object (s.filePatterns.map fun (label, pattern) => (label, Json.str pattern))),
    ("exclude_patterns", .strings s.excludePatterns),
    ("complexity_thresholds", s.thresholds.toJson)]

/-- Read source rules. -/
def SourceRules.ofJson? (value : Json) : Option SourceRules := do
  match ← value.someFields? ["file_patterns", "exclude_patterns", "complexity_thresholds"] with
  | [files, excluded, thresholds] =>
    return {
      filePatterns := ← Json.fieldOr? (Json.asMap? Json.asString?) builtIn.filePatterns files
      excludePatterns := ← Json.fieldOr? Json.asStrings? builtIn.excludePatterns excluded
      thresholds := ← Json.fieldOr? Thresholds.ofJson? builtIn.thresholds thresholds }
  | _ => none

/-- The document places as JSON. -/
def DocumentPlaces.toJson (d : DocumentPlaces) : Json :=
  Json.object [("co_located_patterns", .strings d.besideSource),
    ("centralized_patterns", .strings d.central)]

/-- Read document places. -/
def DocumentPlaces.ofJson? (value : Json) : Option DocumentPlaces := do
  match ← value.someFields? ["co_located_patterns", "centralized_patterns"] with
  | [beside, central] =>
    return {
      besideSource := ← Json.fieldOr? Json.asStrings? builtIn.besideSource beside
      central := ← Json.fieldOr? Json.asStrings? builtIn.central central }
  | _ => none

/-- The settings as JSON. -/
def Settings.toJson (s : Settings) : Json :=
  Json.object [("documentation_standards", s.standards.toJson),
    ("code_analysis", s.sources.toJson), ("documentation_discovery", s.documents.toJson)]

/-- Read settings. -/
def Settings.ofJson? (value : Json) : Option Settings := do
  match ← value.someFields? ["documentation_standards", "code_analysis",
      "documentation_discovery"] with
  | [standards, sources, documents] =>
    return {
      standards := ← Json.fieldOr? Standards.ofJson? builtIn.standards standards
      sources := ← Json.fieldOr? SourceRules.ofJson? builtIn.sources sources
      documents := ← Json.fieldOr? DocumentPlaces.ofJson? builtIn.documents documents }
  | _ => none

end DocCoverage
