import DocCoverage.Proofs.Pattern.Breaks
/-!
# Patterns — matches on both sides of a wall

A match never reaches over a wall, so the matches in a text with a wall are
those in front of it and those behind it. A pattern that asks for no beginning
of a line cannot tell a wall, which is no word character, from the beginning of
the text. So it is counted on both sides as in two texts (`Pattern.count_append`).
-/

namespace DocCoverage

/-! ## Searches -/

namespace Search

variable {State Result : Type} {search : Search State Result} {found : Found Result}
  {state : State} {passed other : Option Char} {text back : List Char} {w : Char} {covered : ℕ}

/-- A match ends in the text. -/
theorem width_le (h : found ∈ search.ends state passed text) : found.width ≤ text.length := by
  induction text generalizing state passed found with
  | nil =>
    obtain ⟨move, -, hmove⟩ := List.mem_flatMap.mp h
    cases move with
    | finish result =>
      obtain rfl := List.mem_singleton.mp hmove
      exact Nat.le_refl 0
    | pass next => cases hmove
  | cons x rest ih =>
    obtain ⟨move, -, hmove⟩ := List.mem_flatMap.mp h
    cases move with
    | finish result =>
      obtain rfl := List.mem_singleton.mp hmove
      exact Nat.zero_le _
    | pass next =>
      obtain ⟨later, hlater, rfl⟩ := List.mem_map.mp hmove
      have hle := ih hlater
      simp only [Found.behind, List.length_cons]
      omega

/-- **In front of a wall and behind it**: what is found in a text with a wall is
what is found in the text in front of it, and then what is found behind it. -/
theorem allFrom_append (fair : search.IsFair) (wide : search.IsWide)
    (hwall : ∀ passed text, search.ends search.start passed (text ++ w :: back) =
      search.ends search.start passed text) (hcovered : covered ≤ text.length) :
    search.allFrom covered passed (text ++ w :: back) =
      search.allFrom covered passed text ++ search.allFrom 0 (some w) back := by
  induction text generalizing covered passed with
  | nil =>
    obtain rfl : covered = 0 := Nat.le_zero.mp hcovered
    have hhere : search.ends search.start passed (w :: back) = [] :=
      (hwall passed []).trans (wide.ends_nil passed)
    rw [List.nil_append, allFrom_zero_of_none fair wide (by rw [hhere]; rfl)]
    rfl
  | cons x rest ih =>
    cases covered with
    | succ n => exact ih (Nat.le_of_succ_le_succ hcovered)
    | zero =>
      have hhere := hwall passed (x :: rest)
      rw [List.cons_append] at hhere ⊢
      cases hhead : (search.ends search.start passed (x :: rest)).head? with
      | none =>
        rw [allFrom_zero_of_none fair wide hhead, allFrom_zero_of_none fair wide (hhere ▸ hhead)]
        exact ih (Nat.zero_le _)
      | some found =>
        -- the match ends in front of the wall
        have hwidth := width_le (List.mem_of_head? hhead)
        rw [List.length_cons] at hwidth
        rw [allFrom_zero_of_some fair hhead, allFrom_zero_of_some fair (hhere ▸ hhead),
          ih (Nat.sub_le_of_le_add hwidth), List.cons_append]

/-- What is found hangs on what was passed only as far as matches from there
do. -/
theorem allFrom_congr (fair : search.IsFair)
    (h : ∀ text, search.ends search.start passed text = search.ends search.start other text)
    (text : List Char) : search.allFrom 0 passed text = search.allFrom 0 other text := by
  cases text with
  | nil => rfl
  | cons x rest => rw [allFrom, allFrom, first?_eq fair, first?_eq fair, firstFrom, firstFrom, h]

end Search

/-! ## Patterns -/

/-- What is seen of a place unless the beginning of a line is asked for. -/
def Cursor.sight (c : Cursor) : Bool × List Char := (c.passed.any Text.isWordChar, c.ahead)

namespace Pattern

variable {p : Pattern} {g : Glyph} {c d : Cursor} {w : Char}

/-- Whether a pattern asks for no beginning of a line. -/
def ignoresLineStart : Pattern → Bool
  | lineStart => false
  | seq p q | alt p q => p.ignoresLineStart && q.ignoresLineStart
  | empty | one _ | many _ | wordEdge | lineEnd => true

theorem map_sight_runEnds {passed other : Option Char} (text : List Char)
    (h : passed.any Text.isWordChar = other.any Text.isWordChar) :
    (runEnds g passed text).map Cursor.sight = (runEnds g other text).map Cursor.sight := by
  cases text with
  | nil => simp [runEnds, Cursor.sight, h]
  | cons x rest =>
    unfold runEnds
    split <;> simp [Cursor.sight, h]

/-- **Where such a pattern ends** hangs on what is seen only. -/
theorem map_sight_ends (h : p.ignoresLineStart = true) (hsight : c.sight = d.sight) :
    (p.ends c).map Cursor.sight = (p.ends d).map Cursor.sight := by
  induction p generalizing c d with
  | empty => simp [ends, hsight]
  | one g =>
    have hahead : c.ahead = d.ahead := congrArg Prod.snd hsight
    simp only [ends, hahead]
  | many g =>
    have hahead : c.ahead = d.ahead := congrArg Prod.snd hsight
    simp only [ends, hahead]
    exact map_sight_runEnds d.ahead (congrArg Prod.fst hsight)
  | wordEdge =>
    obtain ⟨hpassed, hahead⟩ := Prod.mk.inj hsight
    have hedge : c.atWordEdge = d.atWordEdge := by
      rw [Cursor.atWordEdge, Cursor.atWordEdge, hpassed, hahead]
    simp only [ends, hedge]
    split <;> simp [hsight]
  | lineStart => cases h
  | lineEnd =>
    have hahead : c.ahead = d.ahead := congrArg Prod.snd hsight
    have hend : c.atLineEnd = d.atLineEnd := by rw [Cursor.atLineEnd, Cursor.atLineEnd, hahead]
    simp only [ends, hend]
    split <;> simp [hsight]
  | seq p q ihp ihq =>
    obtain ⟨hp, hq⟩ := (Bool.and_eq_true _ _).mp h
    -- the second part starts from every end of the first, of which only the sight counts
    have hflat (es : List Cursor) (es' : List Cursor)
        (hes : es.map Cursor.sight = es'.map Cursor.sight) :
        (es.flatMap q.ends).map Cursor.sight = (es'.flatMap q.ends).map Cursor.sight := by
      induction es generalizing es' with
      | nil =>
        obtain rfl := List.map_eq_nil_iff.mp hes.symm
        rfl
      | cons e es ih =>
        obtain ⟨e', es', rfl, he, hes⟩ := List.map_eq_cons_iff.mp hes.symm
        rw [List.flatMap_cons, List.flatMap_cons, List.map_append, List.map_append, ihq hq he.symm,
          ih es' hes.symm]
    exact hflat _ _ (ihp hp hsight)
  | alt p q ihp ihq =>
    obtain ⟨hp, hq⟩ := (Bool.and_eq_true _ _).mp h
    rw [ends, ends, List.map_append, List.map_append, ihp hp hsight, ihq hq hsight]

theorem isWide_search (h : p.takes = true) : p.search.IsWide := by
  intro passed text found hfound
  rw [ends_search] at hfound
  obtain ⟨e, he, rfl⟩ := List.mem_map.mp hfound
  exact Nat.sub_pos_of_lt (length_ahead_lt h he)

/-- Behind what is no word character such a pattern is searched for as at the
beginning of a text. -/
theorem ends_search_of_ignoresLineStart (h : p.ignoresLineStart = true)
    (hw : Text.isWordChar w = false) (text : List Char) :
    p.search.ends p.search.start (some w) text = p.search.ends p.search.start none text := by
  have hsight : (Cursor.mk (some w) text).sight = (Cursor.mk none text).sight := by
    simp [Cursor.sight, hw]
  have hfound : foundAt text = (fun sight => ⟨(), text.length - sight.2.length⟩) ∘ Cursor.sight :=
    rfl
  have hends := map_sight_ends h hsight
  rw [ends_search, ends_search, hfound, ← List.map_map, ← List.map_map]
  exact congrArg _ hends

/-- **Matches on both sides of a wall add up.** -/
theorem count_append (hrefuses : p.refuses w = true) (htakes : p.takes = true)
    (hstart : p.ignoresLineStart = true) (hw : Text.isWordChar w = false)
    (text back : List Char) : p.count (text ++ w :: back) = p.count text + p.count back := by
  have hall : p.search.all (text ++ w :: back) = p.search.all text ++ p.search.all back := by
    rw [Search.all, Search.allFrom_append p.isFair_search (isWide_search htakes)
      (fun passed text => ends_search_append hrefuses passed text back) (Nat.zero_le _),
      Search.allFrom_congr p.isFair_search (ends_search_of_ignoresLineStart hstart hw) back]
    rfl
  rw [count, hall, List.length_append]
  rfl

end Pattern

end DocCoverage
