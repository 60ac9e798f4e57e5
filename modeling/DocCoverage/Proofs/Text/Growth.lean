import DocCoverage.Proofs.Text.Pieces
import DocCoverage.Text.Blank
import DocCoverage.Text.Lines
import DocCoverage.Text.Search
import Mathlib.Data.List.Infix
/-!
# Text — what a longer text has

What stands in a text stands in every text around it, and words and lines do
not become fewer when something is added in front or behind: an addition can
join the first or the last word with another one, but it cannot make two of
one.
-/

namespace DocCoverage

namespace Text

/-! ## Looking for a text -/

/-- **A text occurs in another** as a run of consecutive characters. -/
theorem occursIn_iff {needle text : List Char} :
    occursIn needle text = true ↔ needle <:+: text := by
  induction text with
  | nil => rw [occursIn, List.isEmpty_iff, List.infix_nil]
  | cons c rest ih =>
    rw [occursIn, Bool.or_eq_true, ih, List.isPrefixOf_iff_prefix, List.infix_cons_iff]

theorem occursIn_of_infix {needle text around : List Char} (h : occursIn needle text = true)
    (hinside : text <:+: around) : occursIn needle around = true :=
  occursIn_iff.mpr ((occursIn_iff.mp h).trans hinside)

/-! ## Words -/

/-- The first piece is empty just where the text is empty or begins with a
separator. -/
theorem isEmpty_of_pieces {isSep : Char → Bool} {text piece : List Char} {more : List (List Char)}
    (h : pieces isSep text = piece :: more) : piece.isEmpty = text.head?.all isSep := by
  cases text with
  | nil =>
    obtain ⟨rfl, -⟩ := List.cons_eq_cons.mp h
    rfl
  | cons x rest =>
    rw [pieces] at h
    by_cases hx : isSep x = true
    · rw [if_pos hx] at h
      obtain ⟨rfl, -⟩ := List.cons_eq_cons.mp h
      simp [hx]
    · have hne : pieces isSep rest ≠ [] := pieces_ne_nil rest
      obtain ⟨first, others, hrest⟩ := List.exists_cons_of_ne_nil hne
      rw [if_neg hx, hrest, consFirst] at h
      obtain ⟨rfl, -⟩ := List.cons_eq_cons.mp h
      simp [hx]

/-- The words of a text with a character in front: a blank begins no word,
and any other character begins one unless the text goes on with it. -/
theorem wordCount_cons (c : Char) (text : List Char) :
    wordCount (c :: text) =
      wordCount text + if !isBlank c && text.head?.all isBlank then 1 else 0 := by
  unfold wordCount words
  rw [pieces]
  by_cases hc : isBlank c = true
  · simp [hc]
  · have hne : pieces isBlank text ≠ [] := pieces_ne_nil text
    obtain ⟨piece, more, hpieces⟩ := List.exists_cons_of_ne_nil hne
    rw [if_neg hc, ← isEmpty_of_pieces hpieces, hpieces, consFirst]
    cases piece <;> simp [hc]

theorem wordCount_le_cons (c : Char) (text : List Char) : wordCount text ≤ wordCount (c :: text) := by
  rw [wordCount_cons]
  omega

theorem wordCount_le_append_left (front text : List Char) :
    wordCount text ≤ wordCount (front ++ text) := by
  induction front with
  | nil => exact le_rfl
  | cons c front ih => exact ih.trans (wordCount_le_cons c (front ++ text))

/-- A text that begins with something that is not blank has a word. -/
theorem wordCount_pos {text : List Char} (h : text.head?.all isBlank = false) :
    0 < wordCount text := by
  induction text with
  | nil => cases h
  | cons c rest ih =>
    have hc : isBlank c = false := h
    rw [wordCount_cons, hc]
    cases hrest : rest.head?.all isBlank with
    | true => exact Nat.succ_pos _
    | false => exact Nat.lt_add_right _ (ih hrest)

theorem wordCount_le_append_right (text back : List Char) :
    wordCount text ≤ wordCount (text ++ back) := by
  induction text with
  | nil => exact Nat.zero_le _
  | cons c rest ih =>
    cases rest with
    | nil =>
      -- the last word may go on in what is added, which then has a word itself
      have hone : wordCount [c] = if isBlank c then 0 else 1 := by
        rw [wordCount_cons]
        cases isBlank c <;> rfl
      rw [hone, List.singleton_append, wordCount_cons]
      cases hc : isBlank c with
      | true => exact Nat.zero_le _
      | false =>
        cases hback : back.head?.all isBlank with
        | true => exact Nat.le_add_left _ _
        | false => exact Nat.le_add_right_of_le (wordCount_pos hback)
    | cons x more =>
      rw [List.cons_append, wordCount_cons, wordCount_cons c (x :: more ++ back)]
      exact Nat.add_le_add_right ih _

/-- **Words do not become fewer.** -/
theorem wordCount_le_of_infix {text around : List Char} (h : text <:+: around) :
    wordCount text ≤ wordCount around := by
  obtain ⟨front, back, rfl⟩ := h
  exact (wordCount_le_append_left front text).trans (wordCount_le_append_right _ back)

/-! ## Lines -/

theorem length_linesOfPieces_cons (piece : List Char) {more : List (List Char)} (h : more ≠ []) :
    (linesOfPieces (piece :: more)).length = (linesOfPieces more).length + 1 := by
  cases more with
  | nil => exact absurd rfl h
  | cons next rest => rfl

/-- The lines of a text with a character in front. -/
theorem lineCount_cons (c : Char) (text : List Char) :
    lineCount (c :: text) = if c = '\n' then lineCount text + 1 else max 1 (lineCount text) := by
  unfold lineCount lines
  rw [pieces]
  by_cases hc : c = '\n'
  · rw [if_pos (beq_iff_eq.mpr hc), if_pos hc, length_linesOfPieces_cons _ (pieces_ne_nil text)]
  · rw [if_neg (mt beq_iff_eq.mp hc), if_neg hc]
    cases hpieces : pieces (· == '\n') text with
    | nil => exact absurd hpieces (pieces_ne_nil text)
    | cons piece more =>
      cases more with
      | nil => cases piece <;> rfl
      | cons next rest =>
        rw [consFirst, length_linesOfPieces_cons _ (List.cons_ne_nil _ _),
          length_linesOfPieces_cons _ (List.cons_ne_nil _ _)]
        omega

theorem lineCount_le_append_left (front text : List Char) :
    lineCount text ≤ lineCount (front ++ text) := by
  induction front with
  | nil => exact le_rfl
  | cons c front ih =>
    rw [List.cons_append, lineCount_cons]
    split <;> omega

theorem lineCount_le_append_right (text back : List Char) :
    lineCount text ≤ lineCount (text ++ back) := by
  induction text with
  | nil => exact Nat.zero_le _
  | cons c rest ih =>
    rw [List.cons_append, lineCount_cons, lineCount_cons]
    split <;> omega

/-- **Lines do not become fewer.** -/
theorem lineCount_le_of_infix {text around : List Char} (h : text <:+: around) :
    lineCount text ≤ lineCount around := by
  obtain ⟨front, back, rfl⟩ := h
  exact (lineCount_le_append_left front text).trans (lineCount_le_append_right _ back)

end Text

end DocCoverage
