import DocCoverage.Glob.Name
/-!
# Globs — what a name pattern means

A name matches a pattern if it falls into pieces that the elements of the
pattern take one after the other (`NamePattern.Means`). The table of matched
ends is built from the end of the name, and each of its rows begins with the
answer for the whole, so that the answer can be told row by row
(`admits_iff_means`).
-/

namespace DocCoverage

/-- The texts that an element takes. -/
def NameElement.Takes : NameElement → List Char → Prop
  | char c, text => text = [c]
  | anyChar, text => ∃ c, text = [c]
  | anyText, _ => True
  | within ranges, text => ∃ c, CharRange.covers ranges c = true ∧ text = [c]
  | outside ranges, text => ∃ c, CharRange.covers ranges c = false ∧ text = [c]

namespace NamePattern

variable {pattern more : NamePattern} {element : NameElement} {text front rest : List Char}

/-- The elements take the text piece by piece. -/
inductive Means : NamePattern → List Char → Prop where
  | nil : Means [] []
  | cons {element : NameElement} {more : NamePattern} {front rest : List Char} :
      element.Takes front → Means more rest → Means (element :: more) (front ++ rest)

/-! ## Rows of the table -/

/-- Behind the row of a text stands the row of what is behind its first
character. -/
theorem exists_matchedEnds_cons (pattern : NamePattern) (c : Char) (rest : List Char) :
    ∃ b, matchedEnds pattern (c :: rest) = b :: matchedEnds pattern rest := by
  induction pattern with
  | nil => exact ⟨false, rfl⟩
  | cons element more ih =>
    obtain ⟨b, hb⟩ := ih
    cases element <;> rw [matchedEnds, hb] <;> exact ⟨_, rfl⟩

theorem exists_matchedEnds_nil (pattern : NamePattern) : ∃ b, matchedEnds pattern [] = [b] := by
  induction pattern with
  | nil => exact ⟨true, rfl⟩
  | cons element more ih =>
    obtain ⟨b, hb⟩ := ih
    cases element <;> rw [matchedEnds, hb] <;> exact ⟨_, rfl⟩

/-- One character that an element admits, and then the rest. -/
theorem headD_oneThen (p : Char → Bool) (more : NamePattern) (text : List Char) :
    (oneThen p text (matchedEnds more text)).headD false = true ↔
      ∃ c rest, text = c :: rest ∧ p c = true ∧ more.admits rest = true := by
  cases text with
  | nil => simp [oneThen]
  | cons c rest =>
    obtain ⟨b, hb⟩ := exists_matchedEnds_cons more c rest
    rw [hb, oneThen, List.headD_cons, Bool.and_eq_true]
    constructor
    · rintro ⟨hc, hrest⟩
      exact ⟨c, rest, rfl, hc, hrest⟩
    · rintro ⟨c', rest', heq, hc, hrest⟩
      obtain ⟨rfl, rfl⟩ := List.cons.inj heq
      exact ⟨hc, hrest⟩

/-- Any text, and then the rest. -/
theorem headD_anyThen (more : NamePattern) (text : List Char) :
    (anyThen (matchedEnds more text)).headD false = true ↔
      ∃ front rest, text = front ++ rest ∧ more.admits rest = true := by
  induction text with
  | nil =>
    obtain ⟨b, hb⟩ := exists_matchedEnds_nil more
    rw [hb]
    constructor
    · intro h
      refine ⟨[], [], rfl, ?_⟩
      rw [admits, hb]
      simpa [anyThen] using h
    · rintro ⟨front, rest, heq, hrest⟩
      obtain ⟨rfl, rfl⟩ := List.append_eq_nil_iff.mp heq.symm
      rw [admits, hb] at hrest
      simpa [anyThen] using hrest
  | cons c rest ih =>
    obtain ⟨b, hb⟩ := exists_matchedEnds_cons more c rest
    have hhere : more.admits (c :: rest) = b := by rw [admits, hb, List.headD_cons]
    rw [hb, anyThen, List.headD_cons, Bool.or_eq_true, ih]
    constructor
    · rintro (h | ⟨front, behind, rfl, h⟩)
      · exact ⟨[], c :: rest, rfl, hhere.trans h⟩
      · exact ⟨c :: front, behind, rfl, h⟩
    · rintro ⟨front, behind, heq, h⟩
      cases front with
      | nil =>
        rw [List.nil_append] at heq
        rw [← heq, hhere] at h
        exact .inl h
      | cons first front =>
        exact .inr ⟨front, behind, (List.cons.inj heq).2, h⟩

/-! ## Meaning -/

theorem means_nil_iff : Means [] text ↔ text = [] := by
  constructor
  · rintro ⟨⟩
    rfl
  · rintro rfl
    exact .nil

theorem means_cons_iff : Means (element :: more) text ↔
    ∃ front rest, text = front ++ rest ∧ element.Takes front ∧ Means more rest := by
  constructor
  · rintro ⟨⟩
    exact ⟨_, _, rfl, ‹_›, ‹_›⟩
  · rintro ⟨front, rest, rfl, hfront, hrest⟩
    exact .cons hfront hrest

/-- **A pattern admits the names that it means.** -/
theorem admits_iff_means (pattern : NamePattern) (text : List Char) :
    pattern.admits text = true ↔ Means pattern text := by
  induction pattern generalizing text with
  | nil =>
    rw [means_nil_iff]
    cases text with
    | nil => exact iff_of_true rfl rfl
    | cons c rest => exact iff_of_false Bool.false_ne_true (List.cons_ne_nil _ _)
  | cons element more ih =>
    rw [means_cons_iff, admits]
    -- an element that takes one character
    have hone {p : Char → Bool}
        (htakes : ∀ front, element.Takes front ↔ ∃ c, p c = true ∧ front = [c]) :
        (oneThen p text (matchedEnds more text)).headD false = true ↔
          ∃ front rest, text = front ++ rest ∧ element.Takes front ∧ Means more rest := by
      rw [headD_oneThen]
      constructor
      · rintro ⟨c, rest, rfl, hc, hrest⟩
        exact ⟨[c], rest, rfl, (htakes [c]).mpr ⟨c, hc, rfl⟩, (ih rest).mp hrest⟩
      · rintro ⟨front, rest, rfl, hfront, hrest⟩
        obtain ⟨c, hc, rfl⟩ := (htakes front).mp hfront
        exact ⟨c, rest, rfl, hc, (ih rest).mpr hrest⟩
    cases element with
    | char c => exact hone fun front => by simp [NameElement.Takes]
    | anyChar => exact hone fun front => by simp [NameElement.Takes]
    | anyText =>
      rw [matchedEnds, headD_anyThen]
      simp only [ih, NameElement.Takes, true_and]
    | within ranges => exact hone fun front => Iff.rfl
    | outside ranges => exact hone fun front => by simp [NameElement.Takes]

end NamePattern

end DocCoverage
