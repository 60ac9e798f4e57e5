import DocCoverage.Project.Basic
import DocCoverage.Source.Classification
import DocCoverage.Source.Rules
import DocCoverage.Source.Signals
import DocCoverage.Text.Lines
/-!
# Projects — source files

A source file is described by its path and its text. What the text tells is
read off by an extractor, so that another one can take its place. A file
that cannot be read is described by its path alone and needs no
documentation.
-/

namespace DocCoverage

/-- The description of a source file. -/
structure CodeFile where
  path : Path
  name : String
  fileType : FileType
  language : Language
  lines : Nat
  signals : Signals
  hasTests : Bool
  isPublic : Bool
  needsDocumentation : Bool
  priority : Priority
deriving DecidableEq, Repr, Inhabited

/-- What reads off a text what it tells. -/
abbrev Extractor := List Char → Signals

namespace CodeFile

/-- The description of a file that cannot be read. -/
def unreadable (path : Path) : CodeFile where
  path := path
  name := path.stem
  fileType := FileType.ofPath path.slashed
  language := .unknown
  lines := 0
  signals := ⟨[], [], [], [], 0⟩
  hasTests := false
  isPublic := false
  needsDocumentation := false
  priority := .low

/-- The facts that the rules look at. -/
def factsOf (path : Path) (text : List Char) (signals : Signals) : Facts where
  fileType := FileType.ofPath path.slashed
  complexity := signals.complexity
  functions := signals.functions.length
  classes := signals.classes.length
  isPublic := Source.isPublic path.slashed.toList text
  lines := Text.lineCount text

/-- The description of a file with this text. -/
def describe (thresholds : Thresholds) (extract : Extractor) (hasTests : Bool) (path : Path)
    (text : List Char) : CodeFile :=
  let signals := extract text
  let facts := factsOf path text signals
  { path := path
    name := path.stem
    fileType := facts.fileType
    language := (path.extension?.map Language.ofExtension).getD .unknown
    lines := facts.lines
    signals := signals
    hasTests := hasTests
    isPublic := facts.isPublic
    needsDocumentation := facts.needsDocumentation thresholds
    priority := facts.priority thresholds }

end CodeFile

namespace Project

/-! ## Tests -/

/-- The extensions of source files. -/
def sourceExtensions : List String := ["ts", "tsx", "js", "jsx"]

/-- The extensions that the tests of a file may have: its own first. -/
def testExtensions (path : Path) : List String :=
  match path.extension? with
  | some own => own :: sourceExtensions.filter (· != own)
  | none => sourceExtensions

/-- The files that would be tests, in or below a directory, of a file of
this stem. -/
def testPlaces (directory : Path) (stem extension : String) : List Path :=
  let below := directory.child "__tests__"
  [ directory.child (stem ++ ".test." ++ extension),
    directory.child (stem ++ ".spec." ++ extension),
    below.child (stem ++ "." ++ extension),
    below.child (stem ++ ".test." ++ extension) ]

/-- Whether a source file has tests. -/
def hasTests (project : Project) (path : Path) : Bool :=
  match (project.full path).parent? with
  | none => false
  | some directory =>
    (testExtensions path).any fun extension =>
      (testPlaces directory path.stem extension).any project.files.isFile

/-! ## Descriptions -/

/-- Describe a file with an extractor. -/
def describeWith (project : Project) (extract : Extractor) (path : Path) : CodeFile :=
  match project.files.readText? (project.full path) with
  | some text =>
    CodeFile.describe project.settings.thresholds extract (project.hasTests path) path text.toList
  | none => CodeFile.unreadable path

/-- Describe a file. -/
def describe (project : Project) (path : Path) : CodeFile :=
  project.describeWith Signals.extract path

/-- The candidates that need documentation, in the order of their paths. -/
def discover (project : Project) : List CodeFile :=
  (project.candidates.map project.describe).filter (·.needsDocumentation)

end Project

end DocCoverage
