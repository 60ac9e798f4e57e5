import DocCoverage.CommandLine.Arguments
import DocCoverage.Decimal.Reading
import DocCoverage.Path
import DocCoverage.Text.Blank
import DocCoverage.Text.Quoted
/-!
# Command line — what is asked for

There are two commands: one checks a project, and the other creates a
settings file. The second is named by the first argument. Everything but an
override can be given only once.
-/

namespace DocCoverage

/-- How a check is asked for. -/
structure CheckOptions where
  path : Option Path
  settingsFile : Option Path
  json : Bool
  coverageFloor : Option Float
  qualityFloor : Option Float
  /-- Names and values of overrides, in order. -/
  overrides : List (String × String)
  baseRef : Option String
  headRef : Option String
  pullRequest : Bool
  quiet : Bool
  verbose : Bool
deriving Repr, Inhabited

/-- How a settings file is asked for. -/
structure InitOptions where
  directory : Option Path
  force : Bool
deriving DecidableEq, Repr, Inhabited

/-- What is asked for. -/
inductive Command where
  | check (options : CheckOptions)
  | init (options : InitOptions)
deriving Repr, Inhabited

/-! ## Values -/

namespace Given

/-- Something that was not given before. -/
def once {α : Type} (before : Option α) (value : Except Stop α) : Except Stop (Option α) :=
  match before with
  | some _ => .error (.misuse none)
  | none => value.map some

/-- A flag that was not given before. -/
def onceOn (before : Bool) : Except Stop Bool :=
  if before then .error (.misuse none) else .ok true

/-- A path; an empty one is misused. -/
def path (text : String) : Except Stop Path :=
  if text = "" then .error (.misuse none) else .ok ⟨text⟩

/-- An amount. -/
def amount (text : String) : Except Stop Float :=
  match Decimal.amount? text with
  | some x => .ok x
  | none => .error (.misuse none)

/-- The complaint about a malformed override. -/
def overrideComplaint (text : String) : String := "expected KEY=VALUE, got " ++ Text.quoted text

/-- An override: a name, an equals sign and a value. Blanks around the name
do not belong to it, and it must not be empty. -/
def override (text : String) : Except Stop (String × String) :=
  let name := Text.trim (text.toList.takeWhile (· != '='))
  match text.toList.dropWhile (· != '=') with
  | [] => .error (.misuse (some (overrideComplaint text)))
  | _ :: value =>
    if name.isEmpty then .error (.misuse (some (overrideComplaint text)))
    else .ok (String.ofList name, String.ofList value)

end Given

/-! ## Checks -/

namespace CheckOptions

/-- A check of which nothing is said. -/
def plain : CheckOptions where
  path := none
  settingsFile := none
  json := false
  coverageFloor := none
  qualityFloor := none
  overrides := []
  baseRef := none
  headRef := none
  pullRequest := false
  quiet := false
  verbose := false

/-- Take in a flag. -/
def acceptFlag (o : CheckOptions) : Flag → Except Stop CheckOptions
  | .json => (Given.onceOn o.json).map fun on => { o with json := on }
  | .quiet => (Given.onceOn o.quiet).map fun on => { o with quiet := on }
  | .verbose => (Given.onceOn o.verbose).map fun on => { o with verbose := on }
  | .pullRequest => (Given.onceOn o.pullRequest).map fun on => { o with pullRequest := on }
  | .help => .error .help
  | .version => .error .version
  | .force => .error (.misuse none)

/-- Take in an option with its value. -/
def acceptOption (o : CheckOptions) (value : String) : ValueOption → Except Stop CheckOptions
  | .settingsFile =>
    (Given.once o.settingsFile (Given.path value)).map fun v => { o with settingsFile := v }
  | .coverageFloor =>
    (Given.once o.coverageFloor (Given.amount value)).map fun v => { o with coverageFloor := v }
  | .qualityFloor =>
    (Given.once o.qualityFloor (Given.amount value)).map fun v => { o with qualityFloor := v }
  | .override => (Given.override value).map fun v => { o with overrides := o.overrides ++ [v] }
  | .baseRef => (Given.once o.baseRef (.ok value)).map fun v => { o with baseRef := v }
  | .headRef => (Given.once o.headRef (.ok value)).map fun v => { o with headRef := v }
  | .directory => .error (.misuse none)

/-- Take in something given. -/
def accept (o : CheckOptions) : Given → Except Stop CheckOptions
  | .flag flag => o.acceptFlag flag
  | .option option value => o.acceptOption value option
  | .operand text => (Given.once o.path (Given.path text)).map fun v => { o with path := v }

/-- What a check understands. -/
def grammar : Grammar CheckOptions where
  flags := [.json, .quiet, .verbose, .pullRequest, .help, .version]
  options := [.settingsFile, .coverageFloor, .qualityFloor, .override, .baseRef, .headRef]
  operands := 1
  accept := accept

/-- Whether the options can go together: the ends of a change come in pairs,
and not with the pull request. -/
def isCoherent (o : CheckOptions) : Bool :=
  o.baseRef.isSome == o.headRef.isSome && !(o.pullRequest && o.baseRef.isSome)

end CheckOptions

/-! ## Settings files -/

namespace InitOptions

/-- A settings file of which nothing is said. -/
def plain : InitOptions := ⟨none, false⟩

/-- Take in something given. -/
def accept (o : InitOptions) : Given → Except Stop InitOptions
  | .flag .force => (Given.onceOn o.force).map fun on => { o with force := on }
  | .flag .help => .error .help
  | .option .directory value =>
    (Given.once o.directory (Given.path value)).map fun v => { o with directory := v }
  | _ => .error (.misuse none)

/-- What the command understands. -/
def grammar : Grammar InitOptions where
  flags := [.force, .help]
  options := [.directory]
  operands := 0
  accept := accept

end InitOptions

/-! ## Commands -/

namespace Command

/-- Help on a command, or on commands in general. -/
def helpOn : List String → Stop
  | [] => .help
  | ["init"] => .help
  | ["help"] => .help
  | _ => .misuse none

/-- The command that arguments ask for. -/
def ofArguments : List String → Except Stop Command
  | "init" :: arguments => (InitOptions.grammar.read InitOptions.plain arguments).map init
  | "help" :: arguments => .error (helpOn arguments)
  | arguments =>
    match CheckOptions.grammar.read CheckOptions.plain arguments with
    | .error stop => .error stop
    | .ok options => if options.isCoherent then .ok (check options) else .error (.misuse none)

end Command

end DocCoverage
