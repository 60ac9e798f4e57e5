import DocCoverage.Source.Rules
/-!
# Settings — what can be set, and what is built in

The settings of a run: the floors for quality and coverage, what a document
of each kind has to hold, which files are sources, and where their documents
are looked for. They are fixed before a run and never change during it.
-/

namespace DocCoverage

/-- What is asked of documentation. -/
structure Standards where
  /-- A document of at least this score is adequate. -/
  minimumQuality : Float
  /-- A run with at least this coverage passes. -/
  minimumCoverage : Float
  /-- The sections that a document needs, by file type. -/
  requiredSections : List (String × List String)
  /-- The words that a document needs, by priority. -/
  minimumWords : List (String × Nat)
deriving Repr, Inhabited

/-- Which files are sources. -/
structure SourceRules where
  /-- Glob patterns with a label each, relative to the root. -/
  filePatterns : List (String × String)
  /-- Texts that exclude a path in which they occur, asterisks aside. -/
  excludePatterns : List String
  thresholds : Thresholds
deriving Repr, Inhabited

/-- Where documents are looked for. -/
structure DocumentPlaces where
  /-- File names tried beside a source file, the preferred one first. -/
  besideSource : List String
  /-- Central places, for information only. -/
  central : List String
deriving Repr, Inhabited

/-- The settings of a run. -/
structure Settings where
  standards : Standards
  sources : SourceRules
  documents : DocumentPlaces
deriving Repr, Inhabited

/-! ## Built-in settings -/

/-- The standards that hold unless others are set. -/
def Standards.builtIn : Standards where
  minimumQuality := 0.7
  minimumCoverage := 85.0
  requiredSections := [
    ("api_route", ["overview", "usage", "api_reference", "examples"]),
    ("component", ["overview", "props", "usage", "examples"]),
    ("hook", ["overview", "usage", "examples", "api_reference"]),
    ("layout", ["overview", "usage", "examples"]),
    ("page", ["overview", "usage", "examples"]),
    ("service", ["overview", "usage", "api_reference", "configuration"]),
    ("types", ["overview", "usage", "examples"]),
    ("utility", ["overview", "usage", "examples"])]
  minimumWords := [("critical", 200), ("high", 150), ("low", 50), ("medium", 100)]

/-- The source files of a web application, tests and build output aside. -/
def SourceRules.builtIn : SourceRules where
  filePatterns := [
    ("api_routes", "src/app/api/**/route.ts"),
    ("app_admin", "src/app/admin/**/*.tsx"),
    ("app_components", "src/app/**/components/**/*.tsx"),
    ("app_constants", "src/app/**/constants/**/*.ts"),
    ("app_error", "src/app/**/error.tsx"),
    ("app_globals", "src/app/**/globals.tsx"),
    ("app_hooks", "src/app/**/hooks/**/*.ts"),
    ("app_layouts", "src/app/**/layout.tsx"),
    ("app_loading", "src/app/**/loading.tsx"),
    ("app_misc_ts", "src/app/**/*.ts"),
    ("app_not_found", "src/app/**/not-found.tsx"),
    ("app_pages", "src/app/**/page.tsx"),
    ("app_services", "src/app/**/services/**/*.ts"),
    ("app_types", "src/app/**/types/**/*.ts"),
    ("app_utils", "src/app/**/utils/**/*.ts"),
    ("components", "src/components/**/*.tsx"),
    ("hooks", "src/lib/hooks/**/*.ts"),
    ("lib_components", "src/lib/components/**/*.tsx"),
    ("lib_misc", "src/lib/**/*.ts"),
    ("middleware", "src/middleware/**/*.ts"),
    ("root_components", "src/*.tsx"),
    ("root_files", "src/*.ts"),
    ("services", "src/lib/services/**/*.ts"),
    ("template_utils", "src/templates/**/*.ts"),
    ("templates", "src/templates/**/*.tsx"),
    ("types", "src/lib/types/**/*.ts"),
    ("utilities", "src/lib/utils/**/*.ts")]
  excludePatterns := [
    "**/*.test.*", "**/*.spec.*", "**/test/**", "**/__tests__/**", "**/node_modules/**",
    "**/.next/**", "**/build/**", "**/dist/**"]
  thresholds := Thresholds.builtIn

/-- Documents lie beside their source files. -/
def DocumentPlaces.builtIn : DocumentPlaces where
  besideSource := ["index.md", "README.md", "docs.md", "documentation.md"]
  central := ["jekyll/**/*.md"]

/-- The settings of a run for which nothing is set. -/
def Settings.builtIn : Settings where
  standards := Standards.builtIn
  sources := SourceRules.builtIn
  documents := DocumentPlaces.builtIn

/-! ## Look-ups -/

/-- The entry of a table under a key. -/
def tableValue? {α : Type} (table : List (String × α)) (key : String) : Option α :=
  (table.find? fun entry => entry.1 == key).map (·.2)

namespace Settings

/-- The words asked for where nothing is set for a priority. -/
def fallbackWords : Nat := 50

/-- The sections that the document of a file of this type needs. -/
def sectionsFor (settings : Settings) (fileType : FileType) : List String :=
  (tableValue? settings.standards.requiredSections fileType.key).getD []

/-- The words that the document of a file of this priority needs. -/
def wordsFor (settings : Settings) (priority : Priority) : Nat :=
  (tableValue? settings.standards.minimumWords priority.key).getD fallbackWords

/-- The cut-offs of complexity. -/
def thresholds (settings : Settings) : Thresholds := settings.sources.thresholds

/-- The quality floor. -/
def minimumQuality (settings : Settings) : Float := settings.standards.minimumQuality

/-- The coverage floor. -/
def minimumCoverage (settings : Settings) : Float := settings.standards.minimumCoverage

end Settings

end DocCoverage
