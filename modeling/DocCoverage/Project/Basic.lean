import DocCoverage.Glob.Expansion
import DocCoverage.Settings.Basic
import DocCoverage.Text.Search
/-!
# Projects — where source files are found

A project is a root directory in a file system, with the settings that hold
for it. Its candidates are the files that the patterns match, less those
that an exclusion names. A file that several patterns match, or one pattern
in several ways, is a candidate once, as it was spelled first.
-/

namespace DocCoverage

/-- A root directory, and the settings that hold for it. -/
structure Project where
  files : FileSystem
  root : Path
  settings : Settings
deriving Inhabited

namespace Project

/-- A root without dots: the location it leads to or, if it leads nowhere,
the path without its dots. -/
def plainRoot (files : FileSystem) (root : Path) : Path :=
  match files.resolve root with
  | .ok location => Path.ofLocation location
  | .error _ => root.plain

/-- The project at a root. -/
def atRoot (files : FileSystem) (root : Path) (settings : Settings) : Project :=
  ⟨files, plainRoot files root, settings⟩

/-- A path of the project as a path of the file system. -/
def full (project : Project) (path : Path) : Path := project.root.join path

/-- The files that a pattern matches, relative to the root. A root that
leads nowhere has none, but patterns below the empty root begin at the root
of the file system. -/
def matchesOf (project : Project) (glob : Glob) : List Path :=
  match project.files.resolve project.root with
  | .ok location =>
    (glob.fileTrails project.files (project.full ∘ Glob.written) location).map Glob.spelled
  | .error _ =>
    if project.root.text = "" then
      (glob.fileTrails project.files Glob.spelledFromRoot []).map Glob.spelledFromRoot
    else []

/-- The texts that exclude a path in which they occur. -/
def exclusions (settings : Settings) : List (List Char) :=
  (settings.sources.excludePatterns.map fun pattern => Text.without '*' pattern.toList).filter
    fun needle => !needle.isEmpty

/-- Whether a path is excluded. -/
def isExcluded (settings : Settings) (path : Path) : Bool :=
  (exclusions settings).any fun needle => Text.occursIn needle path.slashed.toList

/-- The files that the patterns match, pattern by pattern in the order of
their labels. An invalid pattern matches none. -/
def found (project : Project) : List Path :=
  project.settings.sources.filePatterns.flatMap fun (_, pattern) =>
    match Glob.ofText? pattern with
    | some glob => project.matchesOf glob
    | none => []

/-- The candidates, in the order of their paths. -/
def candidates (project : Project) : List Path :=
  Path.firstSpellings (project.found.filter fun path => !isExcluded project.settings path)

end Project

end DocCoverage
