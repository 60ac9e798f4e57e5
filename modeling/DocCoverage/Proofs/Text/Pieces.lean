import DocCoverage.Text.Pieces
import Mathlib.Data.List.Basic
/-!
# Text — the pieces between separators

There is always a piece, no piece holds a separator, and at a separator the
pieces before it and behind it are told apart (`pieces_append`). Pieces that
are joined and cut again are what they were (`cutAt_intercalate`), and so is a text
that is cut and joined (`intercalate_cutAt`).
-/

namespace DocCoverage

namespace Text

variable {isSep : Char → Bool}

theorem pieces_ne_nil (text : List Char) : pieces isSep text ≠ [] := by
  cases text with
  | nil => simp [pieces]
  | cons c rest =>
    rw [pieces]
    split
    · exact List.cons_ne_nil _ _
    · cases pieces isSep rest <;> exact List.cons_ne_nil _ _

theorem consFirst_append {c : Char} {ps : List (List Char)} (h : ps ≠ [])
    (more : List (List Char)) : consFirst c (ps ++ more) = consFirst c ps ++ more := by
  cases ps with
  | nil => exact absurd rfl h
  | cons piece rest => rfl

/-- The pieces before a separator, and those behind it. -/
theorem pieces_append (text more : List Char) {c : Char} (hc : isSep c = true) :
    pieces isSep (text ++ c :: more) = pieces isSep text ++ pieces isSep more := by
  induction text with
  | nil =>
    change (if isSep c then [] :: pieces isSep more else _) = [] :: pieces isSep more
    rw [if_pos hc]
  | cons first rest ih =>
    rw [List.cons_append, pieces, pieces, ih]
    split
    · rw [List.cons_append]
    · exact consFirst_append (pieces_ne_nil rest) _

/-- A text without separators is one piece. -/
theorem pieces_of_forall {text : List Char} (h : ∀ c ∈ text, isSep c = false) :
    pieces isSep text = [text] := by
  induction text with
  | nil => rfl
  | cons c rest ih =>
    obtain ⟨hc, hrest⟩ := List.forall_mem_cons.mp h
    rw [pieces, hc, ih hrest]
    rfl

/-- No piece holds a separator. -/
theorem not_isSep_of_mem_pieces {text piece : List Char} (h : piece ∈ pieces isSep text) :
    ∀ c ∈ piece, isSep c = false := by
  induction text generalizing piece with
  | nil =>
    rw [pieces, List.mem_singleton] at h
    subst h
    exact fun _ hc => absurd hc List.not_mem_nil
  | cons first rest ih =>
    rw [pieces] at h
    split at h
    · rcases List.mem_cons.mp h with rfl | h
      · exact fun _ hc => absurd hc List.not_mem_nil
      · exact ih h
    next hfirst =>
      have hnot : isSep first = false := Bool.not_eq_true _ ▸ hfirst
      match hps : pieces isSep rest with
      | [] => exact absurd hps (pieces_ne_nil rest)
      | head :: more =>
        rw [hps, consFirst] at h
        rcases List.mem_cons.mp h with rfl | h
        · exact List.forall_mem_cons.mpr ⟨hnot, ih (by rw [hps]; exact List.mem_cons_self)⟩
        · exact ih (by rw [hps]; exact List.mem_cons_of_mem _ h)

/-- **Joined pieces are cut into the pieces they were.** -/
theorem cutAt_intercalate {c : Char} {parts : List String} (hne : parts ≠ [])
    (h : ∀ part ∈ parts, c ∉ part.toList) :
    cutAt c ((String.singleton c).intercalate parts) = parts := by
  have hfree (part : String) (hpart : c ∉ part.toList) :
      ∀ d ∈ part.toList, (d == c) = false := by
    intro d hd
    rw [beq_eq_false_iff_ne]
    rintro rfl
    exact hpart hd
  rw [cutAt, String.toList_intercalate, String.toList_singleton]
  induction parts with
  | nil => exact absurd rfl hne
  | cons part rest ih =>
    obtain ⟨hpart, hrest⟩ := List.forall_mem_cons.mp h
    cases rest with
    | nil =>
      rw [List.map_singleton, List.intercalate_singleton, pieces_of_forall (hfree part hpart),
        List.map_singleton, String.ofList_toList]
    | cons next more =>
      -- every separator that is joined in is one to cut at
      have hnext : next :: more ≠ [] := List.cons_ne_nil _ _
      have hjoin : List.intercalate [c] ((part :: next :: more).map String.toList) =
          part.toList ++ c :: List.intercalate [c] ((next :: more).map String.toList) := by
        rw [List.map_cons, List.intercalate_cons_of_ne_nil (by simp), List.append_assoc,
          List.singleton_append]
      have hcut := @pieces_append (· == c) part.toList
        (List.intercalate [c] ((next :: more).map String.toList)) c (beq_self_eq_true c)
      rw [hjoin, hcut, List.map_append, ih hnext hrest, pieces_of_forall (hfree part hpart),
        List.map_singleton, String.ofList_toList, List.singleton_append]

theorem intercalate_pieces (c : Char) (text : List Char) :
    [c].intercalate (pieces (· == c) text) = text := by
  induction text with
  | nil => rfl
  | cons first rest ih =>
    obtain ⟨piece, more, hps⟩ := List.exists_cons_of_ne_nil (@pieces_ne_nil (· == c) rest)
    rw [pieces]
    split
    next heq =>
      rw [List.intercalate_cons_of_ne_nil (pieces_ne_nil rest), ih, eq_of_beq heq]
      rfl
    next =>
      rw [hps] at ih ⊢
      rw [consFirst, ← ih]
      cases more with
      | nil => rfl
      | cons next more =>
        rw [List.intercalate_cons_of_ne_nil (List.cons_ne_nil _ _),
          List.intercalate_cons_of_ne_nil (List.cons_ne_nil _ _)]
        rfl

/-- **A text that is cut and joined again is what it was.** -/
theorem intercalate_cutAt (c : Char) (s : String) :
    (String.singleton c).intercalate (cutAt c s) = s := by
  have hpieces : (cutAt c s).map String.toList = pieces (· == c) s.toList := by
    rw [cutAt, List.map_map]
    exact (List.map_congr_left fun piece _ => String.toList_ofList).trans (List.map_id _)
  rw [← String.toList_inj, String.toList_intercalate, String.toList_singleton, hpieces,
    intercalate_pieces]

/-- The last ones of several joined texts are at the end. -/
theorem intercalate_suffix {sep : List Char} (front more : List (List Char)) :
    sep.intercalate more <:+ sep.intercalate (front ++ more) := by
  induction front with
  | nil => exact List.suffix_refl _
  | cons first rest ih =>
    by_cases hne : rest ++ more = []
    · rw [(List.append_eq_nil_iff.mp hne).2]
      exact List.nil_suffix
    · rw [List.cons_append, List.intercalate_cons_of_ne_nil hne]
      exact ih.trans (List.suffix_append _ _)

/-- The first ones of several joined texts are in front. -/
theorem intercalate_prefix {sep : List Char} {front more : List (List Char)} (hne : front ≠ []) :
    sep.intercalate front <+: sep.intercalate (front ++ more) := by
  induction front with
  | nil => exact absurd rfl hne
  | cons first rest ih =>
    cases rest with
    | nil =>
      rw [List.intercalate_singleton, List.singleton_append]
      cases more with
      | nil =>
        refine ⟨[], ?_⟩
        rw [List.append_nil, List.intercalate_singleton]
      | cons next more =>
        rw [List.intercalate_cons_of_ne_nil (List.cons_ne_nil _ _), List.append_assoc]
        exact List.prefix_append _ _
    | cons second rest =>
      have hmore : second :: rest ++ more ≠ [] := List.cons_ne_nil _ _
      rw [List.cons_append, List.intercalate_cons_of_ne_nil (List.cons_ne_nil _ _),
        List.intercalate_cons_of_ne_nil hmore, List.prefix_append_right_inj]
      exact ih (List.cons_ne_nil _ _)

/-- A character in front leaves the last piece as it is, or makes it
longer. -/
theorem getLast?_consFirst {c : Char} {ps : List (List Char)} {last : List Char}
    (h : ps.getLast? = some last) :
    (consFirst c ps).getLast? = some last ∨ (consFirst c ps).getLast? = some (c :: last) := by
  match ps with
  | [] => cases h
  | [piece] =>
    obtain rfl := Option.some_inj.mp h
    exact .inr rfl
  | first :: second :: more => exact .inl (by simpa [consFirst] using h)

/-- A character at the end that is no separator is at the end of the last
piece. -/
theorem exists_getLast?_pieces_concat (text : List Char) {c : Char} (hc : isSep c = false) :
    ∃ piece, (pieces isSep (text ++ [c])).getLast? = some (piece ++ [c]) := by
  induction text with
  | nil => exact ⟨[], by simp [pieces, hc, consFirst]⟩
  | cons first rest ih =>
    obtain ⟨piece, hpiece⟩ := ih
    rw [List.cons_append, pieces]
    split
    · exact ⟨piece, by rw [List.getLast?_cons_of_ne_nil (pieces_ne_nil _), hpiece]⟩
    · rcases @getLast?_consFirst first _ _ hpiece with h | h
      · exact ⟨piece, h⟩
      · exact ⟨first :: piece, h⟩

/-- The last piece of a text that does not end with a separator is not
empty. -/
theorem getLast?_pieces_concat (text : List Char) {c : Char} (hc : isSep c = false) :
    (pieces isSep (text ++ [c])).getLast? ≠ some [] := by
  obtain ⟨piece, hpiece⟩ := exists_getLast?_pieces_concat text hc
  rw [hpiece]
  simp

end Text

end DocCoverage
