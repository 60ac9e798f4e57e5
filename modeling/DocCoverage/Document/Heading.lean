import DocCoverage.Pattern.Scan
/-!
# Documents — headings and sections

A section of a document is recognised by its heading: one or two number
signs, blanks, and one of the titles that the section goes by, in either
case. A title may go on behind its words, so that a plural needs no title of
its own.
-/

namespace DocCoverage

namespace Heading

open Pattern

/-- One or two number signs. -/
def mark : Pattern := seq (exactly "#") (optional (exactly "#"))

/-- A heading with one of these titles. -/
def titled (titles : List String) : Pattern :=
  inOrder [mark, maybeBlanks, firstOf (titles.map phrase)]

/-- A heading of any title: blanks and a word behind the mark. -/
def any : Pattern := inOrder [mark, blanks, atLeastOne .word]

/-! ## Titles -/

/-- The titles of an overview. -/
def overviewTitles : List String := ["Overview", "Description", "About"]

/-- The titles of an interface reference. -/
def referenceTitles : List String := ["API", "Reference", "Method", "Prop"]

/-- The titles of a section on configuration. -/
def configurationTitles : List String := ["Configuration", "Config", "Options"]

/-- The titles of a section on troubleshooting. -/
def troubleshootingTitles : List String := ["Troubleshooting", "FAQ", "Common Issues"]

/-- The titles that count as usage examples. -/
def usageTitles : List String := ["Usage", "Example", "Getting Started"]

/-- The titles that count as an installation guide. -/
def installationTitles : List String := ["Installation", "Setup", "Getting Started"]

end Heading

/-- A section that a document may be asked for. -/
structure Section where
  name : String
  titles : List String
deriving DecidableEq, Repr

namespace Section

/-- The sections that can be recognised. -/
def all : List Section :=
  [ ⟨"overview", Heading.overviewTitles⟩,
    ⟨"usage", ["Usage", "Getting Started", "How to Use"]⟩,
    ⟨"api_reference", Heading.referenceTitles⟩,
    ⟨"examples", ["Example", "Sample Code"]⟩,
    ⟨"installation", ["Installation", "Setup"]⟩,
    ⟨"configuration", Heading.configurationTitles⟩,
    ⟨"troubleshooting", Heading.troubleshootingTitles⟩,
    ⟨"props", ["Props", "Properties", "Parameters"]⟩ ]

/-- The section of a name. -/
def named? (name : String) : Option Section := all.find? fun s => s.name == name

/-- Whether a document has the section. -/
def isIn (s : Section) (text : List Char) : Bool := (Heading.titled s.titles).occursIn text

/-- The required sections that a document lacks, in the order in which they
are required. A name that no section has is never lacking. -/
def missing (text : List Char) (required : List String) : List String :=
  required.filter fun name =>
    match named? name with
    | some s => !s.isIn text
    | none => false

end Section

end DocCoverage
