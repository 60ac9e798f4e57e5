import DocCoverage.Project.Check
import DocCoverage.Text.Blank
/-!
# Projects — checking what has changed

A check can be confined to the files that a change touches. Version control
lists them, one path a line; what it lists counts if it is a source file
that is there. A listing that could not be had touches nothing, and where
nothing is touched nothing is wrong.
-/

namespace DocCoverage

/-- The two ends of a change. -/
structure DiffRange where
  base : String
  head : String
deriving DecidableEq, Repr, Inhabited

namespace DiffRange

/-- How a range is written. -/
def display (range : DiffRange) : String := range.base ++ "..." ++ range.head

/-- The arguments that ask version control for the paths of a change, given
relative to the directory asked in. -/
def arguments (range : DiffRange) : List String :=
  ["diff", "--name-only", "--relative", range.display]

/-- The base where none is set. -/
def defaultBase : String := "origin/main"

/-- The head where none is set. -/
def defaultHead : String := "HEAD"

/-- The variable that sets the base. -/
def baseVariable : String := "PR_BASE_REF"

/-- The variable that sets the head. -/
def headVariable : String := "PR_HEAD_REF"

/-- A value that is set, if it is more than blanks. -/
def orDefault (value : Option String) (default : String) : String :=
  match value with
  | some text => if (Text.trim text.toList).isEmpty then default else text
  | none => default

/-- The range that the environment sets. -/
def ofEnvironment (environment : String → Option String) : DiffRange where
  base := orDefault (environment baseVariable) defaultBase
  head := orDefault (environment headVariable) defaultHead

end DiffRange

namespace Project

/-- The listed paths that are source files of the project, in order. Of one
path spelled in several ways the last counts. -/
def sourcesListed (project : Project) (listing : String) : List Path :=
  let named := ((Text.lines listing.toList).map Text.trim).filter fun line => !line.isEmpty
  Path.lastSpellings ((named.map fun line => (⟨String.ofList line⟩ : Path)).filter fun path =>
    path.extension?.any sourceExtensions.contains && project.files.isFile (project.full path))

/-- The files of a change, if version control answered with these bytes. -/
def changedSources (project : Project) (answer : Option (List UInt8)) : List Path :=
  match answer with
  | some bytes => project.sourcesListed (Utf8.shownText bytes)
  | none => []

/-- Check the files that need documentation among the changed ones. -/
def checkChanged (project : Project) (changed : List Path) : Report :=
  let touched := changed.map Path.components
  let files := project.discover.filter fun file => touched.contains file.path.components
  if files.isEmpty then Report.perfect else project.checkFiles files

end Project

end DocCoverage
