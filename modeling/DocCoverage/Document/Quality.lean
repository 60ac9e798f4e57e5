import DocCoverage.Document.Features
import DocCoverage.Settings.Basic
/-!
# Documents — assessing quality

The quality of a document is what it has, its score, and the required
sections that it lacks. The score tells the effort that closing the gap
takes; where there is no document, the priority of the source file does.
-/

namespace DocCoverage

/-- The quality of a document. -/
structure Quality where
  features : Features
  score : Float
  missing : List String
deriving Repr, Inhabited

namespace Quality

/-- The quality of a document that cannot be read. -/
def nothing : Quality := ⟨.nothing, 0.0, []⟩

/-- Assess a document for a source file of this type and priority. -/
def assess (settings : Settings) (fileType : FileType) (priority : Priority) (text : String) :
    Quality :=
  let required := settings.sectionsFor fileType
  let features := Features.ofText text.toList
  { features := features
    score := features.score required (settings.wordsFor priority)
    missing := Section.missing text.toList required }

end Quality

namespace Effort

/-- The effort to improve a document of this score. -/
def ofScore (score : Float) : Effort :=
  if score < 0.3 then high else if score < 0.6 then medium else low

/-- The effort to write a document from nothing. -/
def ofPriority : Priority → Effort
  | .critical => high
  | .high => medium
  | .medium => low
  | .low => low

end Effort

end DocCoverage
