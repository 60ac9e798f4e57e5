import DocCoverage.Proofs.Text.Pieces
import DocCoverage.Text.Blank
import DocCoverage.Text.Lines
import Mathlib.Data.List.DropRight
/-!
# Text — lines and what is trimmed of them

Lines that are written one after the other, each with a line feed behind it,
are read back one by one (`lines_flatMap`). What is trimmed begins with no
blank, and a line that neither begins nor ends with a blank is left as it is.
-/

namespace DocCoverage

namespace Text

variable {text line : List Char} {c : Char}

/-! ## Lines -/

/-- **Lines are read as they were written**, except for a carriage return at
the end of one. -/
theorem lines_flatMap {written : List (List Char)} (h : ∀ line ∈ written, '\n' ∉ line) :
    lines (written.flatMap fun line => line ++ ['\n']) = written.map withoutReturn := by
  induction written with
  | nil => rfl
  | cons line rest ih =>
    obtain ⟨hline, hrest⟩ := List.forall_mem_cons.mp h
    have hpieces : pieces (· == '\n') (line ++ '\n' :: rest.flatMap fun line => line ++ ['\n']) =
        pieces (· == '\n') line ++ pieces (· == '\n') (rest.flatMap fun line => line ++ ['\n']) :=
      pieces_append line _ (beq_self_eq_true '\n')
    have hone : pieces (· == '\n') line = [line] :=
      pieces_of_forall fun c hc => beq_eq_false_iff_ne.mpr fun heq => hline (heq ▸ hc)
    obtain ⟨first, more, hmore⟩ := List.exists_cons_of_ne_nil
      (pieces_ne_nil (rest.flatMap fun line => line ++ ['\n']))
    rw [List.flatMap_cons, List.append_assoc, List.singleton_append, lines, hpieces, hone, hmore,
      List.map_cons, ← ih hrest, lines, hmore]
    rfl

theorem withoutReturn_of_getLast? (h : line.getLast? ≠ some '\r') : withoutReturn line = line :=
  if_neg h

/-! ## Trimming -/

theorem trim_eq_rdropWhile (text : List Char) :
    trim text = (text.dropWhile isBlank).rdropWhile isBlank := rfl

theorem mem_of_mem_trim (h : c ∈ trim text) : c ∈ text := by
  rw [trim_eq_rdropWhile] at h
  exact (List.dropWhile_suffix isBlank).subset ((List.rdropWhile_prefix isBlank _).subset h)

/-- A trimmed text does not begin with a blank. -/
theorem isBlank_of_head?_trim (h : (trim text).head? = some c) : isBlank c = false := by
  obtain ⟨more, hmore⟩ := List.rdropWhile_prefix isBlank (text.dropWhile isBlank)
  rw [trim_eq_rdropWhile] at h
  have hhead : (text.dropWhile isBlank).head? = some c := by
    rw [← hmore, List.head?_append, h, Option.some_or]
  have hnot := List.head?_dropWhile_not isBlank text
  rw [hhead] at hnot
  simpa using hnot

theorem trim_eq_self (hhead : ∀ c ∈ text.head?, isBlank c = false)
    (hlast : ∀ c ∈ text.getLast?, isBlank c = false) : trim text = text := by
  have hdrop : text.dropWhile isBlank = text := by
    cases text with
    | nil => rfl
    | cons c rest => rw [List.dropWhile_cons_of_neg (by simp [hhead c rfl])]
  rw [trim_eq_rdropWhile, hdrop, List.rdropWhile_eq_self_iff]
  intro hne hblank
  rw [hlast _ (List.getLast?_eq_some_getLast hne)] at hblank
  cases hblank

end Text

end DocCoverage
