import DocCoverage.Document.Meaningful
import DocCoverage.Document.Quality
import DocCoverage.Project.CodeFile
import DocCoverage.Report.Tally
/-!
# Projects — checking the documentation

The document of a source file is the first meaningful one among the names
that are tried beside it. Every file that needs documentation has one
outcome, by whether it has a document and whether the score of the document
reaches the quality floor, and the report is that of the tally of these
outcomes.
-/

namespace DocCoverage

namespace Project

/-! ## Documents -/

/-- The name that a document gets if none is set. -/
def fallbackName : String := "index.md"

/-- Where documents of a source file are looked for, in order. -/
def documentPlaces (settings : Settings) (path : Path) : List Path :=
  settings.documents.besideSource.map path.directory.child

/-- Where the document of a source file should be. -/
def expectedDocument (settings : Settings) (path : Path) : Path :=
  path.directory.child (settings.documents.besideSource.head?.getD fallbackName)

/-- Whether there is a meaningful document at a path. -/
def hasDocumentAt (project : Project) (path : Path) : Bool :=
  (project.files.readText? (project.full path)).any Document.isMeaningful

/-- The document of a source file. -/
def findDocument? (project : Project) (path : Path) : Option Path :=
  (documentPlaces project.settings path).find? project.hasDocumentAt

/-- The documents of source files by the path of the file. Of files of the
same path the last one counts. -/
def findDocuments (project : Project) (files : List CodeFile) : List (Path × Path) :=
  Path.lastOfEach (files.filterMap fun file =>
    (project.findDocument? file.path).map fun document => (file.path, document))

/-- Assess a document; one that cannot be read has nothing. -/
def assess (project : Project) (document : Path) (fileType : FileType) (priority : Priority) :
    Quality :=
  match project.files.readText? (project.full document) with
  | some text => Quality.assess project.settings fileType priority text
  | none => Quality.nothing

/-! ## Outcomes -/

/-- What is wrong if there is no document. -/
def missingIssue : String := "Documentation file does not exist"

/-- The gap of a file without a document. -/
def missingGap (settings : Settings) (file : CodeFile) : Gap where
  codeFile := file.path
  document := expectedDocument settings file.path
  kind := .missing
  fileType := file.fileType
  priority := file.priority
  requiredSections := settings.sectionsFor file.fileType
  issues := [missingIssue]
  effort := Effort.ofPriority file.priority

/-- The gap of a file with a weak document. -/
def inadequateGap (settings : Settings) (file : CodeFile) (document : Path) (quality : Quality) :
    Gap where
  codeFile := file.path
  document := document
  kind := .inadequate
  fileType := file.fileType
  priority := file.priority
  requiredSections := settings.sectionsFor file.fileType
  issues := quality.missing
  effort := Effort.ofScore quality.score

/-- The outcome for a file and its document. -/
def outcome (project : Project) (file : CodeFile) : Option Path → Outcome
  | none => .missing (missingGap project.settings file)
  | some document =>
    let quality := project.assess document file.fileType file.priority
    if project.settings.minimumQuality ≤ quality.score then .adequate quality.score
    else .inadequate quality.score (inadequateGap project.settings file document quality)

/-- The outcomes for files, in order. -/
def outcomes (project : Project) (files : List CodeFile) : List Outcome :=
  let documents := (project.findDocuments files).map fun (path, document) =>
    (path.components, document)
  files.map fun file => project.outcome file (documents.lookup file.path.components)

/-- Check these files. -/
def checkFiles (project : Project) (files : List CodeFile) : Report :=
  (Tally.ofOutcomes (project.outcomes files)).report

/-- Check all files that need documentation. -/
def check (project : Project) : Report := project.checkFiles project.discover

end Project

end DocCoverage
