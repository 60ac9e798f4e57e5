import DocCoverage.Proofs.Json.Overlay
import DocCoverage.Proofs.Settings.Records
/-!
# Settings — what a file says of them

A settings file may say some of the settings and leave out others. Settings
are patched with what it says (`Settings.patched`): a number or a list that is
said is replaced, and a table is updated entry by entry
(`tableValue?_updatedTable`). The fields that a file may say are known by
their paths, each with the values that can be read there
(`Settings.knownFields`).
-/

namespace DocCoverage

/-! ## Tables -/

section Tables

variable {α : Type}

/-- The table with an entry: one of the same key is replaced, and a new one is
put before the first greater key. -/
def putEntry (key : String) (x : α) : List (String × α) → List (String × α)
  | [] => [(key, x)]
  | (other, old) :: rest =>
    if other = key then (key, x) :: rest
    else if key < other then (key, x) :: (other, old) :: rest
    else (other, old) :: putEntry key x rest

/-- The table updated entry by entry; of two entries of one key the first
counts. -/
def updatedTable (table entries : List (String × α)) : List (String × α) :=
  entries.foldr (fun entry table => putEntry entry.1 entry.2 table) table

theorem tableValue?_putEntry (table : List (String × α)) (key other : String) (x : α) :
    tableValue? (putEntry key x table) other =
      if key = other then some x else tableValue? table other := by
  induction table with
  | nil => exact tableValue?_cons (key, x) [] other
  | cons entry rest ih =>
    obtain ⟨first, old⟩ := entry
    rw [putEntry]
    by_cases hsame : first = key
    · rw [if_pos hsame, tableValue?_cons, tableValue?_cons, hsame]
      split <;> rfl
    · rw [if_neg hsame]
      by_cases hless : key < first
      · rw [if_pos hless, tableValue?_cons]
      · rw [if_neg hless, tableValue?_cons, tableValue?_cons, ih]
        by_cases hfirst : first = other
        · rw [if_pos hfirst, if_pos hfirst, if_neg fun heq => hsame (hfirst.trans heq.symm)]
        · rw [if_neg hfirst, if_neg hfirst]

/-- **An updated table has the values of the entries**, and otherwise those it
had before. -/
theorem tableValue?_updatedTable (table entries : List (String × α)) (key : String) :
    tableValue? (updatedTable table entries) key =
      (tableValue? entries key).or (tableValue? table key) := by
  induction entries with
  | nil => rfl
  | cons entry more ih =>
    have hput := tableValue?_putEntry (updatedTable table more) entry.1 key entry.2
    rw [tableValue?_cons]
    refine hput.trans ?_
    rw [ih]
    split <;> rfl

example : updatedTable [("high", 2), ("low", 1)] [("low", 7), ("medium", 3)] =
    [("high", 2), ("low", 7), ("medium", 3)] := by decide

end Tables

/-! ## Patching -/

/-- What a file says in a field, read as its type; the default if it says
nothing. -/
def Json.saidOr {α : Type} (file : Json) (read? : Json → Option α) (default : α)
    (name : String) : α :=
  ((file.field? name).bind read?).getD default

/-- The cut-offs, with those that a file says. -/
def Thresholds.patched (t : Thresholds) (file : Json) : Thresholds where
  low := file.saidOr Json.asNat32? t.low "low"
  medium := file.saidOr Json.asNat32? t.medium "medium"
  high := file.saidOr Json.asNat32? t.high "high"
  critical := file.saidOr Json.asNat32? t.critical "critical"

/-- The standards, with what a file says of them. -/
def Standards.patched (s : Standards) (file : Json) : Standards where
  minimumQuality := file.saidOr Json.asFloat? s.minimumQuality "minimum_quality_score"
  minimumCoverage := file.saidOr Json.asFloat? s.minimumCoverage "minimum_coverage_percentage"
  requiredSections := updatedTable s.requiredSections
    (file.saidOr (Json.asMap? Json.asStrings?) [] "required_sections")
  minimumWords := updatedTable s.minimumWords
    (file.saidOr (Json.asMap? Json.asNat32?) [] "minimum_word_count")

/-- The source rules, with what a file says of them. -/
def SourceRules.patched (s : SourceRules) (file : Json) : SourceRules where
  filePatterns := updatedTable s.filePatterns
    (file.saidOr (Json.asMap? Json.asString?) [] "file_patterns")
  excludePatterns := file.saidOr Json.asStrings? s.excludePatterns "exclude_patterns"
  thresholds := s.thresholds.patched (file.fieldOrNull "complexity_thresholds")

/-- The document places, with those that a file says. -/
def DocumentPlaces.patched (d : DocumentPlaces) (file : Json) : DocumentPlaces where
  besideSource := file.saidOr Json.asStrings? d.besideSource "co_located_patterns"
  central := file.saidOr Json.asStrings? d.central "centralized_patterns"

/-- The settings, with what a file says of them. -/
def Settings.patched (s : Settings) (file : Json) : Settings where
  standards := s.standards.patched (file.fieldOrNull "documentation_standards")
  sources := s.sources.patched (file.fieldOrNull "code_analysis")
  documents := s.documents.patched (file.fieldOrNull "documentation_discovery")

/-! ## Known fields -/

/-- A field that is known: where it is, whether it is a record with known
fields of its own, and which values can be read there. -/
structure KnownField where
  path : List String
  isRecord : Bool
  reads : Json → Bool

namespace KnownField

/-- A field that is read as a whole. -/
def leaf {α : Type} (name : String) (read? : Json → Option α) : KnownField :=
  ⟨[name], false, fun value => (read? value).isSome⟩

/-- A field that is a record. -/
def record {α : Type} (name : String) (read? : Json → Option α) : KnownField :=
  ⟨[name], true, fun value => (read? value).isSome⟩

/-- The field of a record that stands in a field itself. -/
def below (name : String) (known : KnownField) : KnownField :=
  { known with path := name :: known.path }

/-- Whether a file may say this value of the field: it can be read, and a
record is given by its fields. -/
def admits (known : KnownField) (value : Json) : Bool :=
  known.reads value && (!known.isRecord || value.isObject)

end KnownField

/-- A record in a field, with the fields known in it. -/
def recordFields {α : Type} (name : String) (read? : Json → Option α) (inner : List KnownField) :
    List KnownField :=
  .record name read? :: inner.map (.below name)

/-- The known fields of cut-offs. -/
def Thresholds.knownFields : List KnownField :=
  [.leaf "low" Json.asNat32?, .leaf "medium" Json.asNat32?, .leaf "high" Json.asNat32?,
    .leaf "critical" Json.asNat32?]

/-- The known fields of standards. -/
def Standards.knownFields : List KnownField :=
  [.leaf "minimum_quality_score" Json.asFloat?, .leaf "minimum_coverage_percentage" Json.asFloat?,
    .leaf "required_sections" (Json.asMap? Json.asStrings?),
    .leaf "minimum_word_count" (Json.asMap? Json.asNat32?)]

/-- The known fields of source rules. -/
def SourceRules.knownFields : List KnownField :=
  .leaf "file_patterns" (Json.asMap? Json.asString?) :: .leaf "exclude_patterns" Json.asStrings? ::
    recordFields "complexity_thresholds" Thresholds.ofJson? Thresholds.knownFields

/-- The known fields of document places. -/
def DocumentPlaces.knownFields : List KnownField :=
  [.leaf "co_located_patterns" Json.asStrings?, .leaf "centralized_patterns" Json.asStrings?]

/-- The known fields of settings. -/
def Settings.knownFields : List KnownField :=
  recordFields "documentation_standards" Standards.ofJson? Standards.knownFields ++
    recordFields "code_analysis" SourceRules.ofJson? SourceRules.knownFields ++
    recordFields "documentation_discovery" DocumentPlaces.ofJson? DocumentPlaces.knownFields

namespace Json

/-- Whether all known fields are there. -/
def States (known : List KnownField) (value : Json) : Prop :=
  ∀ field ∈ known, (value.at? field.path).isSome

instance (known : List KnownField) (value : Json) : Decidable (States known value) :=
  inferInstanceAs (Decidable (∀ field ∈ known, _))

/-- Whether a value is an object in which every known field that is there may
have the value it has. -/
def Admitted (known : List KnownField) (value : Json) : Prop :=
  value.isObject = true ∧ ∀ field ∈ known, ∀ inner, value.at? field.path = some inner →
    field.admits inner = true

instance (known : List KnownField) (value : Json) : Decidable (Admitted known value) :=
  inferInstanceAs (Decidable (_ ∧ ∀ field ∈ known, ∀ inner ∈ value.at? field.path, _))

end Json

/-- The built-in settings state all known fields. -/
theorem Settings.states_builtIn : Json.States knownFields builtIn.toJson := by
  decide +kernel

end DocCoverage
