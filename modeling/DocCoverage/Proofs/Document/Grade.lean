import DocCoverage.Document.Quality
import DocCoverage.Proofs.Document.Score
import DocCoverage.Proofs.Pattern.Context
import DocCoverage.Proofs.Text.Growth
/-!
# Documents — additions never lower the grade

A heading is recognised wherever it stands, so a document keeps all that it
has when text is added in front of it or behind it (`ofText_atMost`), and
what it lacks is at most what it lacked before (`missing_sublist`). Its grade
can only rise (`grade_mono`).
-/

namespace DocCoverage

open Pattern

/-! ## Headings -/

namespace Heading

theorem isUnanchored_mark : mark.isUnanchored = true := by decide

/-- A heading asks for no position. -/
theorem isUnanchored_titled (titles : List String) : (titled titles).isUnanchored = true := by
  refine isUnanchored_inOrder fun p hp => ?_
  rw [List.mem_cons, List.mem_cons, List.mem_singleton] at hp
  obtain rfl | rfl | rfl := hp
  · exact isUnanchored_mark
  · rfl
  · refine isUnanchored_firstOf fun p hp => ?_
    obtain ⟨title, -, rfl⟩ := List.mem_map.mp hp
    exact isUnanchored_phrase title

theorem isUnanchored_any : any.isUnanchored = true := by decide

end Heading

variable {text : List Char}

/-- A section that a document has stays there. -/
theorem Section.isIn_context {s : Section} (h : s.isIn text = true) (front back : List Char) :
    s.isIn (front ++ text ++ back) = true :=
  occursIn_context (Heading.isUnanchored_titled s.titles) h front back

/-- **A document lacks no more than before** when text is added to it. -/
theorem Section.missing_sublist (front text back : List Char) (required : List String) :
    (missing (front ++ text ++ back) required).Sublist (missing text required) := by
  refine List.monotone_filter_right required fun name hlacks => ?_
  cases hnamed : named? name with
  | none =>
    rw [hnamed] at hlacks
    cases hlacks
  | some s =>
    rw [hnamed] at hlacks
    have hlacks : s.isIn (front ++ text ++ back) = false := by simpa using hlacks
    cases hin : s.isIn text with
    | true =>
      have hstays := s.isIn_context hin front back
      rw [hlacks] at hstays
      cases hstays
    | false => simp [hin]

/-- **A document keeps what it has** when text is added to it. -/
theorem Features.ofText_atMost (front text back : List Char) :
    (ofText text).AtMost (ofText (front ++ text ++ back)) := by
  have htitled (titles : List String) (h : (Heading.titled titles).occursIn text = true) :
      (Heading.titled titles).occursIn (front ++ text ++ back) = true :=
    occursIn_context (Heading.isUnanchored_titled titles) h front back
  have hinside : text <:+: front ++ text ++ back := ⟨front, back, rfl⟩
  constructor
  · exact htitled _
  · exact htitled _
  · exact htitled _
  · exact htitled _
  · exact htitled _
  · exact htitled _
  · exact fun h => Text.occursIn_of_infix h hinside
  · exact fun h => occursIn_context Heading.isUnanchored_any h front back
  · exact Text.wordCount_le_of_infix hinside
  · exact Text.lineCount_le_of_infix hinside

namespace Quality

/-- **Adding text to a document never lowers its grade.** Whatever is added in
front of a text and behind it, the document has all that it had and lacks no
other section, its score does not fall, and it still reaches the quality
floor if it did. The words asked for are a number of 32 bits. -/
theorem grade_mono (settings : Settings) (fileType : FileType) (priority : Priority)
    (front text back : String) (hwords : settings.wordsFor priority < 2 ^ 32) :
    let before := assess settings fileType priority text
    let after := assess settings fileType priority (front ++ text ++ back)
    before.features.AtMost after.features ∧
      after.missing.Sublist before.missing ∧
      before.score ≤ after.score ∧
      (settings.minimumQuality ≤ before.score → settings.minimumQuality ≤ after.score) := by
  intro before after
  have htext : (front ++ text ++ back).toList = front.toList ++ text.toList ++ back.toList := by
    rw [String.toList_append, String.toList_append]
  have hfeatures : before.features.AtMost after.features := by
    change (Features.ofText text.toList).AtMost (Features.ofText (front ++ text ++ back).toList)
    rw [htext]
    exact Features.ofText_atMost front.toList text.toList back.toList
  have hmissing : after.missing.Sublist before.missing := by
    change (Section.missing (front ++ text ++ back).toList _).Sublist _
    rw [htext]
    exact Section.missing_sublist front.toList text.toList back.toList _
  have hscore : before.score ≤ after.score :=
    Features.score_mono hfeatures (settings.sectionsFor fileType) hwords
  exact ⟨hfeatures, hmissing, hscore, fun h => Binary64.float_le_trans h hscore⟩

/-- The overview of a hook becomes one in the plural, between other text, and
does not lose by it. -/
theorem grade_mono_hook :
    Settings.builtIn.wordsFor .medium < 2 ^ 32 ∧
      (assess .builtIn .hook .medium "# Overview").score ≤
        (assess .builtIn .hook .medium ("Draft. " ++ "# Overview" ++ "s\n\n# Usage")).score := by
  have hwords : Settings.builtIn.wordsFor .medium < 2 ^ 32 := by decide
  exact ⟨hwords, (grade_mono .builtIn .hook .medium "Draft. " "# Overview" "s\n\n# Usage"
    hwords).2.2.1⟩

end Quality

end DocCoverage
