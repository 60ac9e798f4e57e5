import DocCoverage.Document.Heading
import DocCoverage.Measure
import DocCoverage.Text.Blank
import DocCoverage.Text.Lines
import DocCoverage.Text.Search
/-!
# Documents — features and the score

What a document has is read off its text once. The score weighs the required
sections that it has, and its headings, against all that were asked for. A
document with too few words loses in proportion, and one with more than
twice the words gains a tenth.
-/

namespace DocCoverage

/-- What a document has. -/
structure Features where
  hasOverview : Bool
  hasUsage : Bool
  hasReference : Bool
  hasInstallation : Bool
  hasConfiguration : Bool
  hasTroubleshooting : Bool
  hasCode : Bool
  hasHeadings : Bool
  words : Nat
  lines : Nat
deriving DecidableEq, Repr, Inhabited

namespace Features

/-- A document that has nothing. -/
def nothing : Features where
  hasOverview := false
  hasUsage := false
  hasReference := false
  hasInstallation := false
  hasConfiguration := false
  hasTroubleshooting := false
  hasCode := false
  hasHeadings := false
  words := 0
  lines := 0

/-- What is in front of and behind a block of code. -/
def codeFence : String := "```"

/-- What a text has. -/
def ofText (text : List Char) : Features where
  hasOverview := (Heading.titled Heading.overviewTitles).occursIn text
  hasUsage := (Heading.titled Heading.usageTitles).occursIn text
  hasReference := (Heading.titled Heading.referenceTitles).occursIn text
  hasInstallation := (Heading.titled Heading.installationTitles).occursIn text
  hasConfiguration := (Heading.titled Heading.configurationTitles).occursIn text
  hasTroubleshooting := (Heading.titled Heading.troubleshootingTitles).occursIn text
  hasCode := Text.occursIn codeFence.toList text
  hasHeadings := Heading.any.occursIn text
  words := Text.wordCount text
  lines := Text.lineCount text

/-! ## The score -/

section Score

variable {α : Type} [Measure α]

/-- Something that counts towards the score: how much, and whether the
document has it. -/
structure Criterion (α : Type) where
  weight : α
  isMet : Bool

/-- The criteria of a document: each required section that is scored, in a
fixed order, and the headings, which always count. -/
def criteria (f : Features) (required : List String) : List (Criterion α) :=
  let whenRequired (name : String) (criterion : Criterion α) : List (Criterion α) :=
    if required.contains name then [criterion] else []
  whenRequired "overview" ⟨0.20, f.hasOverview⟩ ++
    whenRequired "usage" ⟨0.25, f.hasUsage⟩ ++
    whenRequired "api_reference" ⟨0.20, f.hasReference⟩ ++
    whenRequired "examples" ⟨0.15, f.hasCode⟩ ++
    [⟨0.10, f.hasHeadings⟩]

/-- The weight of the criteria that are met, and the weight of all. -/
def weigh (criteria : List (Criterion α)) : α × α :=
  criteria.foldl (fun (met, all) c => (met + (if c.isMet then c.weight else 0.0), all + c.weight))
    (0.0, 0.0)

/-- The share of the weight that is met. -/
def share (criteria : List (Criterion α)) : α :=
  let (met, all) := weigh criteria
  if Measure.less 0.0 all then met / all else 0.0

/-- What more than twice the words is worth. -/
def lengthBonus : α := 1.1

/-- A score in view of the number of words. -/
def adjusted (score : α) (words minimum : Nat) : α :=
  let words : α := Measure.ofCount words
  let minimum : α := Measure.ofCount minimum
  if Measure.less words minimum then score * (words / minimum)
  else if Measure.less (minimum * 2.0) words then Measure.least (score * lengthBonus) 1.0
  else score

/-- The score of a document, between zero and one. -/
def score (f : Features) (required : List String) (minimumWords : Nat) : α :=
  Measure.clamp (adjusted (share (criteria f required)) f.words minimumWords) 0.0 1.0

end Score

end Features

end DocCoverage
