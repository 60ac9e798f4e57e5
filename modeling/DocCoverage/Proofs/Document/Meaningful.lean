import DocCoverage.Proofs.Document.Heading
import DocCoverage.Proofs.Document.Placeholders
import DocCoverage.Proofs.Document.Returns
/-!
# Documents — which ones are real

What makes a document real is read off its lines (`isMeaningful_iff`): it is
long enough, no line is a placeholder, and a word is announced in it or it has
many words, or both if a line says that it was generated. One thing the lines do
not tell: documentation that is promised with its words on several lines counts
as a placeholder too.

Whether lines end with returns matters for the length alone, for every return is
a character (`isMeaningful_withReturns_iff`).
-/

namespace DocCoverage

namespace Document

open Heading (WordAnnounced)
open Text (WholeLines addReturns pieces trim withReturns wordCount)

variable {body : List Char}

/-- What the lines of a document say, its length aside. -/
structure IsSubstantial (body : List Char) : Prop where
  no_placeholder : ∀ line ∈ pieces (· == '\n') body, ¬ IsPlaceholder (trim line)
  generated : (∃ line ∈ pieces (· == '\n') body, SaysGenerated line) →
    WordAnnounced body ∧ manyWords < wordCount body
  written : (¬ ∃ line ∈ pieces (· == '\n') body, SaysGenerated line) →
    WordAnnounced body ∨ manyWords < wordCount body

/-- Whether whole lines of a document together promise documentation. -/
def PromisedOverLines (body : List Char) : Prop :=
  ∃ stretch, WholeLines body stretch ∧ Marked Promises "." (trim stretch)

/-! ## What is asked besides the length -/

/-- Whether a trimmed text is a real document if it is long enough. -/
def isRealIfLong (body : List Char) : Bool :=
  !(placeholders.any fun line => line.occursIn body) &&
    if generatedNotice.occursIn body then
      Heading.any.occursIn body && decide (manyWords < wordCount body)
    else Heading.any.occursIn body || decide (manyWords < wordCount body)

theorem isMeaningful_eq (text : String) :
    isMeaningful text =
      (decide (fewestCharacters ≤ (trim text.toList).length) &&
        isRealIfLong (trim text.toList)) := by
  rw [isMeaningful, isRealIfLong]
  by_cases hlong : fewestCharacters ≤ (trim text.toList).length
  · rw [if_neg (Nat.not_lt.mpr hlong), decide_eq_true hlong, Bool.true_and]
    cases placeholders.any fun line => line.occursIn (trim text.toList) <;> rfl
  · rw [if_pos (Nat.lt_of_not_le hlong), decide_eq_false hlong, Bool.false_and]

theorem isRealIfLong_iff :
    isRealIfLong body = true ↔ IsSubstantial body ∧ ¬ PromisedOverLines body := by
  have hnotice := @occursIn_generatedNotice_iff body
  have hheading := @Heading.occursIn_any_iff body
  have hplaceholders : (!(placeholders.any fun line => line.occursIn body)) = true ↔
      (∀ line ∈ pieces (· == '\n') body, ¬ IsPlaceholder (trim line)) ∧
        ¬ PromisedOverLines body := by
    rw [Bool.not_eq_true', ← Bool.not_eq_true, any_placeholders_iff, not_or, not_exists]
    simp only [not_and]
    rfl
  rw [isRealIfLong, Bool.and_eq_true, hplaceholders]
  by_cases hgenerated : ∃ line ∈ pieces (· == '\n') body, SaysGenerated line
  · rw [if_pos (hnotice.mpr hgenerated), Bool.and_eq_true, hheading, decide_eq_true_iff]
    constructor
    · rintro ⟨⟨hnone, hpromised⟩, hboth⟩
      exact ⟨⟨hnone, fun _ => hboth, fun hnot => absurd hgenerated hnot⟩, hpromised⟩
    · rintro ⟨hreal, hpromised⟩
      exact ⟨⟨hreal.no_placeholder, hpromised⟩, hreal.generated hgenerated⟩
  · rw [if_neg (fun h => hgenerated (hnotice.mp h)), Bool.or_eq_true, hheading, decide_eq_true_iff]
    constructor
    · rintro ⟨⟨hnone, hpromised⟩, hone⟩
      exact ⟨⟨hnone, fun h => absurd h hgenerated, fun _ => hone⟩, hpromised⟩
    · rintro ⟨hreal, hpromised⟩
      exact ⟨⟨hreal.no_placeholder, hpromised⟩, hreal.written hgenerated⟩

/-- **A document is real** if it is long enough and its lines say so, unless
documentation is promised over several of them. -/
theorem isMeaningful_iff (text : String) :
    isMeaningful text = true ↔
      fewestCharacters ≤ (trim text.toList).length ∧ IsSubstantial (trim text.toList) ∧
        ¬ PromisedOverLines (trim text.toList) := by
  rw [isMeaningful_eq, Bool.and_eq_true, decide_eq_true_iff, isRealIfLong_iff]

/-- A promise with a line break in it counts as a placeholder, although none of
its lines is one. -/
example : isMeaningful
    "# Service\n\nDocumentation\ncoming\nsoon\n\nThis service handles every payment of the shop." =
      false := by decide +kernel

/-! ## Line endings -/

/-- A placeholder occurs where it occurred. -/
theorem occursIn_placeholder_addReturns {p : Pattern} (hp : p ∈ placeholders) (text : List Char) :
    p.occursIn (addReturns text) = p.occursIn text := by
  have hstances : ∀ p ∈ placeholders, p.stance .constant = some .steady := by decide
  exact Pattern.occursIn_addReturns (hstances p hp) nofun text

theorem isRealIfLong_addReturns (body : List Char) :
    isRealIfLong (addReturns body) = isRealIfLong body := by
  have hplaceholders : (placeholders.any fun line => line.occursIn (addReturns body)) =
      placeholders.any fun line => line.occursIn body := by
    rw [Bool.eq_iff_iff, List.any_eq_true, List.any_eq_true]
    exact exists_congr fun p => and_congr_right fun hp => by
      rw [occursIn_placeholder_addReturns hp]
  have hnotice : generatedNotice.occursIn (addReturns body) = generatedNotice.occursIn body :=
    Pattern.occursIn_addReturns (t := .blocked) (by decide) nofun body
  rw [isRealIfLong, isRealIfLong, hplaceholders, hnotice, Heading.occursIn_any_addReturns,
    Text.wordCount_addReturns]

/-- A document with returns is real if it is long enough when every line feed
counts twice. -/
theorem isMeaningful_withReturns_eq (text : String) :
    isMeaningful (withReturns text) =
      (decide (fewestCharacters ≤ (trim text.toList).length + (trim text.toList).count '\n') &&
        isRealIfLong (trim text.toList)) := by
  rw [isMeaningful_eq, Text.toList_withReturns, Text.trim_addReturns, Text.length_addReturns,
    isRealIfLong_addReturns]

/-- Whether a document is too short as it is, long enough when every line feed
counts twice, and has all else that is asked of it. -/
structure LacksReturns (body : List Char) : Prop where
  short : body.length < fewestCharacters
  long : fewestCharacters ≤ body.length + body.count '\n'
  substantial : IsSubstantial body
  unpromised : ¬ PromisedOverLines body

theorem lacksReturns_iff : LacksReturns body ↔
    body.length < fewestCharacters ∧ fewestCharacters ≤ body.length + body.count '\n' ∧
      isRealIfLong body = true := by
  rw [isRealIfLong_iff]
  exact ⟨fun h => ⟨h.short, h.long, h.substantial, h.unpromised⟩,
    fun ⟨hshort, hlong, hsubstantial, hunpromised⟩ => ⟨hshort, hlong, hsubstantial, hunpromised⟩⟩

/-- **Returns only make a document longer.** The verdict is the same with them
and without, unless nothing but their characters is lacking; then the document is
real with them only. -/
theorem isMeaningful_withReturns_iff (text : String) :
    (isMeaningful (withReturns text) = isMeaningful text ↔ ¬ LacksReturns (trim text.toList)) ∧
      (isMeaningful (withReturns text) = true ↔
        isMeaningful text = true ∨ LacksReturns (trim text.toList)) := by
  rw [lacksReturns_iff, isMeaningful_withReturns_eq, isMeaningful_eq]
  generalize (trim text.toList).length = length
  generalize (trim text.toList).count '\n' = feeds
  cases isRealIfLong (trim text.toList) with
  | false => simp
  | true =>
    simp only [Bool.and_true, decide_eq_true_iff, decide_eq_decide, and_true]
    omega

/-- A text of forty-nine characters on two lines is long enough once its line
feed has a return. -/
theorem not_isMeaningful_withReturns : ¬ ∀ text : String, '\r' ∉ text.toList →
    isMeaningful (withReturns text) = isMeaningful text := by
  intro h
  have hsame := h "# Heading\nabcdefghi abcdefghi abcdefghi abcdefghi" (by decide +kernel)
  revert hsame
  decide +kernel

end Document

end DocCoverage
