import DocCoverage.Document.Quality
import DocCoverage.Proofs.Pattern.Stances
/-!
# Documents — the quality of a text with returns

A heading ends with a word, so that it is the same whichever way the lines
around it end, and blanks between its mark and its title can be line breaks of
either kind. Words and lines are counted alike. So a document is assessed alike
whichever way its lines end (`assess_addReturns`).
-/

namespace DocCoverage

open Text (addReturns)

/-! ## Headings and features -/

theorem Heading.occursIn_any_addReturns (text : List Char) :
    Heading.any.occursIn (addReturns text) = Heading.any.occursIn text :=
  Pattern.occursIn_addReturns (t := .blocked) (by decide) nofun text

theorem Heading.occursIn_titled_addReturns {titles : List String}
    (h : (Heading.titled titles).stance .constant = some .blocked) (text : List Char) :
    (Heading.titled titles).occursIn (addReturns text) = (Heading.titled titles).occursIn text :=
  Pattern.occursIn_addReturns h nofun text

theorem Section.isIn_addReturns {s : Section} (h : s ∈ Section.all) (text : List Char) :
    s.isIn (addReturns text) = s.isIn text := by
  have hall : ∀ s ∈ Section.all, (Heading.titled s.titles).stance .constant = some .blocked := by
    decide
  exact Heading.occursIn_titled_addReturns (hall s h) text

/-- A text with returns lacks the same sections. -/
theorem Section.missing_addReturns (text : List Char) (required : List String) :
    missing (addReturns text) required = missing text required := by
  refine List.filter_congr fun name _ => ?_
  cases hnamed : named? name with
  | none => rfl
  | some s => exact congrArg (!·) (isIn_addReturns (List.mem_of_find?_eq_some hnamed) text)

/-- **A text with returns has the same features.** -/
theorem Features.ofText_addReturns (text : List Char) :
    ofText (addReturns text) = ofText text := by
  have hfence : Text.occursIn codeFence.toList (addReturns text) =
      Text.occursIn codeFence.toList text :=
    Text.occursIn_addReturns (by decide) (by decide) (by decide) text
  have htitled (titles : List String)
      (h : (Heading.titled titles).stance .constant = some .blocked) :=
    Heading.occursIn_titled_addReturns h text
  rw [ofText, ofText, htitled Heading.overviewTitles (by decide),
    htitled Heading.usageTitles (by decide), htitled Heading.referenceTitles (by decide),
    htitled Heading.installationTitles (by decide),
    htitled Heading.configurationTitles (by decide),
    htitled Heading.troubleshootingTitles (by decide), hfence, Heading.occursIn_any_addReturns,
    Text.wordCount_addReturns, Text.lineCount_addReturns]

/-- **A document is assessed alike whichever way its lines end.** -/
theorem Quality.assess_withReturns (settings : Settings) (fileType : FileType)
    (priority : Priority) (document : String) :
    assess settings fileType priority (Text.withReturns document) =
      assess settings fileType priority document := by
  simp only [assess, Text.toList_withReturns, Features.ofText_addReturns,
    Section.missing_addReturns]

end DocCoverage
