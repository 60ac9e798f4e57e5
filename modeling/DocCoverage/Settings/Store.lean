import DocCoverage.FileSystem.Writing
import DocCoverage.Json.Merge
import DocCoverage.Json.Printer
import DocCoverage.Json.Reader
import DocCoverage.Settings.Json
import DocCoverage.Text.Quoted
/-!
# Settings — the store

Settings are gathered as a JSON value before they are used: the built-in
ones, a settings file laid over them, and then overrides at dotted keys.
Whatever shape the value has in the end, it can be turned into settings: one
that cannot be read as settings counts as the built-in ones.
-/

namespace DocCoverage

/-- Settings being gathered. -/
structure SettingsStore where
  values : Json
deriving Inhabited, Repr

/-- Why settings could not be changed or saved. -/
inductive SettingsError where
  /-- A key has an empty segment or leads through something that is no
  object. -/
  | invalidKey (name : String)
  /-- The file could not be written. -/
  | notWritten (path : Path) (fault : Fault)
deriving DecidableEq, Repr

namespace SettingsError

/-- The message of an error. -/
def message : SettingsError → String
  | invalidKey name => "invalid config key: " ++ Text.quoted name
  | notWritten path fault => "failed to write config " ++ path.text ++ ": " ++ fault.message

end SettingsError

namespace SettingsStore

/-- The name of a settings file. -/
def fileName : String := ".docgaprc.json"

/-- The built-in settings. -/
def builtIn : SettingsStore := ⟨Settings.builtIn.toJson⟩

/-! ## Keys -/

/-- The short name of the coverage floor. -/
def coverageFloor : String := "fail_under"

/-- The short name of the quality floor. -/
def qualityFloor : String := "min_quality"

/-- The dotted key that a name stands for. -/
def keyOf (name : String) : String :=
  if name = coverageFloor then "documentation_standards.minimum_coverage_percentage"
  else if name = qualityFloor then "documentation_standards.minimum_quality_score"
  else name

/-- The segments of a dotted key. -/
def segments (key : String) : List String := Text.cutAt '.' key

/-- The value at a dotted key. -/
def get? (store : SettingsStore) (key : String) : Option Json := store.values.at? (segments key)

/-- The value at a dotted key, read as a type; the default if it is not
there or of another type. -/
def getOr {α : Type} (store : SettingsStore) (key : String) (read? : Json → Option α)
    (default : α) : α :=
  ((store.get? key).bind read?).getD default

/-- Set the value that a name stands for. -/
def set (store : SettingsStore) (name : String) (value : Json) :
    Except SettingsError SettingsStore :=
  let path := segments (keyOf name)
  if path.contains "" then .error (.invalidKey name)
  else match store.values.setAt? value path with
    | some values => .ok ⟨values⟩
    | none => .error (.invalidKey name)

/-- Try to set the value that a name stands for. Answered are the store as the
attempt leaves it, and the error if it failed. -/
def attempt (store : SettingsStore) (name : String) (value : Json) :
    SettingsStore × Option SettingsError :=
  let path := segments (keyOf name)
  if path.contains "" then (store, some (.invalidKey name))
  else
    let (values, done) := Json.assign value path store.values
    (⟨values⟩, if done then none else some (.invalidKey name))

/-- The value that an override spells: JSON, or else the text itself. -/
def overrideValue (text : String) : Json := (Json.parse? text).getD (.str text)

/-! ## Settings -/

/-- The settings that the store holds. -/
def build (store : SettingsStore) : Settings :=
  (Settings.ofJson? store.values).getD Settings.builtIn

/-! ## Files -/

/-- The text of a settings file. -/
def text (store : SettingsStore) : String := store.values.pretty ++ "\n"

/-- The built-in settings with the content of a settings file laid over
them. A content that is no JSON changes nothing. -/
def ofContent (content : Content) : SettingsStore :=
  match content.text?.bind Json.parse? with
  | some values => ⟨builtIn.values.overlay values⟩
  | none => builtIn

/-- Write a settings file. -/
def save (store : SettingsStore) (fs : FileSystem) (path : Path) :
    FileSystem × Option SettingsError :=
  let (fs, fault) := fs.writeBelow path (.text store.text)
  (fs, fault.map (.notWritten path))

/-- Load a settings file. One that is not there is created, if that is
possible, with the built-in settings. -/
def load (fs : FileSystem) (path : Path) : SettingsStore × FileSystem :=
  if fs.leadsSomewhere path then
    match fs.content? path with
    | some content => (ofContent content, fs)
    | none => (builtIn, fs)
  else (builtIn, (builtIn.save fs path).1)

end SettingsStore

end DocCoverage
