import DocCoverage.CommandLine.Command
import DocCoverage.CommandLine.Surroundings
import DocCoverage.Project.Changes
import DocCoverage.Report.Console
import DocCoverage.Report.Json
import DocCoverage.Settings.Store
/-!
# Command line — running a command

A run starts from the arguments and the surroundings, and ends with an exit
code, what it prints, and the file system as it leaves it. A check exits
with zero if the coverage reaches the floor and with one if not; two means
that there was nothing to check, or an error.
-/

namespace DocCoverage

/-- How a run ends. -/
structure Completion where
  exitCode : Nat
  output : String
  /-- Messages, one a line. -/
  messages : List String
  /-- Why the arguments made no sense. -/
  complaint : Option String
  files : FileSystem
  /-- What version control was asked. -/
  request : Option (List String)

namespace Completion

/-- A run that ends without doing anything but printing. -/
def printing (files : FileSystem) (output : String) : Completion :=
  ⟨0, output, [], none, files, none⟩

/-- A run that fails with a message. -/
def failing (files : FileSystem) (message : String) : Completion :=
  ⟨2, "", [message], none, files, none⟩

end Completion

namespace CommandLine

/-- The name and the version of the program. -/
def versionText : String := "docgap 0.3.0\n"

/-- How the program is called. -/
def helpText : String :=
  "Usage: docgap [OPTIONS] [PATH]\n       docgap init [--dir DIR] [--force]\n"

/-- A message behind a word that is set off. -/
def message (colours : Bool) (style : Style) (word text : String) : String :=
  style.paint colours word ++ ": " ++ text

/-- An error message. -/
def errorMessage (colours : Bool) (text : String) : String :=
  message colours .boldRed "Error" text

/-- An error as it is told: one of the file system is told with its
cause. -/
def explained : SettingsError → String
  | .invalidKey name => (SettingsError.invalidKey name).message
  | .notWritten path fault => (SettingsError.notWritten path fault).message ++ ": " ++ fault.message

/-! ## Checks -/

/-- The overrides that options ask for, in the order in which they are
made. -/
def overridesOf (o : CheckOptions) : List (String × Json) :=
  let floor (name : String) (x : Option Float) : List (String × Json) :=
    (x.map fun x => (name, Json.ofFloat x)).toList
  floor SettingsStore.coverageFloor o.coverageFloor ++
    floor SettingsStore.qualityFloor o.qualityFloor ++
    o.overrides.map fun (name, text) => (name, SettingsStore.overrideValue text)

/-- Make overrides in order, up to the first that fails. -/
def overridden (store : SettingsStore) :
    List (String × Json) → Except SettingsError SettingsStore
  | [] => .ok store
  | (name, value) :: more =>
    match store.set name value with
    | .ok store => overridden store more
    | .error error => .error error

/-- The change that a check is confined to. -/
def rangeOf (o : CheckOptions) (environment : String → Option String) : Option DiffRange :=
  match o.baseRef, o.headRef with
  | some base, some head => some ⟨base, head⟩
  | _, _ => if o.pullRequest then some (DiffRange.ofEnvironment environment) else none

/-- The report of a check. -/
def reportOf (project : Project) (range : Option DiffRange)
    (versionControl : List String → Option (List UInt8)) : Report :=
  match range with
  | some range => project.checkChanged (project.changedSources (versionControl range.arguments))
  | none => project.check

/-- The report as it is printed. -/
def printed (o : CheckOptions) (colours : Bool) (now : String) (report : Report)
    (floor : Float) : String :=
  if o.json then (DatedReport.mk report now).pretty ++ "\n"
  else if o.quiet then report.brief ++ "\n"
  else View.render ⟨colours, o.verbose⟩ report floor

/-- The message that the coverage is below the floor. -/
def shortfall (colours : Bool) (report : Report) (floor : Float) : String :=
  message colours .boldRed "Failed" ("coverage " ++ Decimal.fixedText 1 report.coverage ++
    "% is below the minimum " ++ Decimal.fixedText 1 floor ++ "%")

/-- The settings file of a check: the one that is named, or the one in the
root. -/
def settingsPath (o : CheckOptions) (root : Path) : Path :=
  o.settingsFile.getD (root.child SettingsStore.fileName)

/-- The end of a check with these settings. -/
def conclude (around : Surroundings) (o : CheckOptions) (files : FileSystem) (root : Path)
    (settings : Settings) : Completion :=
  let range := rangeOf o around.environment
  let report := reportOf (Project.atRoot files root settings) range around.versionControl
  let floor := settings.minimumCoverage
  { exitCode := if report.meets floor then 0 else 1
    output := printed o around.colours around.now report floor
    messages :=
      if report.meets floor || o.json then [] else [shortfall around.colours report floor]
    complaint := none
    files := files
    request := range.map DiffRange.arguments }

/-- Run a check. -/
def runCheck (around : Surroundings) (o : CheckOptions) : Completion :=
  let path := o.path.getD ⟨"."⟩
  if around.files.isDirectory path then
    let root := Project.plainRoot around.files path
    let (store, files) := SettingsStore.load around.files (settingsPath o root)
    match overridden store (overridesOf o) with
    | .error error => .failing files (errorMessage around.colours (explained error))
    | .ok store => conclude around o files root store.build
  else
    .failing around.files (errorMessage around.colours (path.text ++ " is not a directory"))

/-! ## Settings files -/

/-- Create a settings file. -/
def runInit (around : Surroundings) (o : InitOptions) : Completion :=
  let directory := o.directory.getD (Path.ofLocation around.files.workingDirectory)
  let path := directory.child SettingsStore.fileName
  if around.files.leadsSomewhere path && !o.force then
    { Completion.printing around.files "" with
      messages := [message around.colours .yellow "Warning"
        (path.text ++ " already exists; use --force to overwrite it")] }
  else
    match SettingsStore.builtIn.save around.files path with
    | (files, some error) => .failing files (errorMessage around.colours (explained error))
    | (files, none) =>
      .printing files (message around.colours .boldGreen "Done"
        ("Created " ++ path.text ++ " with default settings") ++ "\n")

/-! ## Commands -/

/-- Run a command. -/
def runCommand (around : Surroundings) : Command → Completion
  | .check options => runCheck around options
  | .init options => runInit around options

/-- The end of a run whose arguments ask for no command. -/
def stopped (around : Surroundings) : Stop → Completion
  | .misuse complaint =>
    { exitCode := 2, output := "", messages := [], complaint := complaint, files := around.files,
      request := none }
  | .help => .printing around.files helpText
  | .version => .printing around.files versionText

/-- Run the program. -/
def run (around : Surroundings) (arguments : List String) : Completion :=
  match Command.ofArguments arguments with
  | .ok command => runCommand around command
  | .error stop => stopped around stop

end CommandLine

end DocCoverage
