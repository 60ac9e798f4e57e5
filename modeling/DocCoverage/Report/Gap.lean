import DocCoverage.Path
import DocCoverage.Source.Kind
/-!
# Reports — gaps

A gap is a source file that needs documentation and has none, or none that
is good enough.
-/

namespace DocCoverage

/-- Why a source file is a gap. -/
inductive GapKind where
  /-- There is no meaningful document. -/
  | missing
  /-- There is one, and its score is below the floor. -/
  | inadequate
deriving DecidableEq, Repr, Inhabited

namespace GapKind

/-- All kinds. -/
def all : List GapKind := [missing, inadequate]

/-- The key of a kind. -/
def key : GapKind → String
  | missing => "missing"
  | inadequate => "inadequate"

/-- The kind with this key. -/
def ofKey? (name : String) : Option GapKind := all.find? fun k => k.key == name

/-- Read a kind. -/
def ofJson? : Json → Option GapKind := Json.asName? ofKey?

end GapKind

/-- A source file that is not adequately documented. -/
structure Gap where
  codeFile : Path
  /-- Where the document should be, or where the weak one is. -/
  document : Path
  kind : GapKind
  fileType : FileType
  priority : Priority
  requiredSections : List String
  issues : List String
  effort : Effort
deriving DecidableEq, Repr, Inhabited

/-- The numbers of gaps of either kind. -/
structure GapCounts where
  missing : Nat
  inadequate : Nat
deriving DecidableEq, Repr, Inhabited

namespace GapCounts

/-- The numbers of gaps in a list. -/
def ofGaps (gaps : List Gap) : GapCounts where
  missing := gaps.countP fun gap => gap.kind == .missing
  inadequate := gaps.countP fun gap => gap.kind == .inadequate

end GapCounts

end DocCoverage
