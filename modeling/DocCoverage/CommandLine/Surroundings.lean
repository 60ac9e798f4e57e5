import DocCoverage.FileSystem.Snapshot
import DocCoverage.Json.Typed
import DocCoverage.Settings.Basic
/-!
# Command line — surroundings

A run finds a file system around it, an environment, and version control.
Surroundings can be given as a JSON object: `files` is a snapshot of what is
below the working directory, `directory` that directory, `environment` the
variables that are set, and `changes` what version control answers. A field
that is not there stands for nothing.
-/

namespace DocCoverage

/-- What a run finds around it. -/
structure Surroundings where
  files : FileSystem
  /-- The value of a variable of the environment. -/
  environment : String → Option String
  /-- What version control answers to a request, if it does. -/
  versionControl : List String → Option (List UInt8)
  /-- Whether texts are set off by colours. -/
  colours : Bool
  /-- The time of the run. -/
  now : String

namespace Surroundings

/-- The working directory where none is named. -/
def defaultDirectory : String := "/work"

/-- The file system of a snapshot below a directory, which becomes the
working directory. -/
def files? (directory : Path) (snapshot : Json) : Option FileSystem := do
  let bare ← FileSystem.empty.create? directory .directory
  let location ← (bare.resolve directory).toOption
  let files ← bare.addSnapshot? directory snapshot
  return { files with workingDirectory := location }

/-- Read surroundings. -/
def ofJson? (value : Json) : Option Surroundings := do
  match ← value.someFields? ["files", "directory", "environment", "changes", "colours", "time"] with
  | [files, directory, environment, changes, colours, time] =>
    let directory ← Json.fieldOr? Json.asString? defaultDirectory directory
    let environment ← Json.fieldOr? (Json.asMap? Json.asString?) [] environment
    let answer ← Json.fieldOr? (fun value => (Content.ofJson? value).map some) none changes
    return {
      files := ← files? ⟨directory⟩ (files.getD (.obj []))
      environment := tableValue? environment
      versionControl := fun _ => answer.map Content.toBytes
      colours := ← Json.fieldOr? Json.asBool? false colours
      now := ← Json.fieldOr? Json.asString? "" time }
  | _ => none

end Surroundings

end DocCoverage
