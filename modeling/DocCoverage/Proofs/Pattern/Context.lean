import DocCoverage.Pattern.Meaning
/-!
# Patterns — matches in a larger text

A pattern that asks for no position, neither the edge of a word nor an end of
a line, does not see what stands around a match. Where it ends does not hang
on what was passed before (`map_ahead_ends`), and every end is still one if
the text goes on (`followedBy_mem_ends`), so that whatever occurs in a text
occurs in every text around it (`occursIn_context`).
-/

namespace DocCoverage

/-- The cursor in a text that goes on behind its end. -/
def Cursor.followedBy (c : Cursor) (back : List Char) : Cursor := ⟨c.passed, c.ahead ++ back⟩

namespace Pattern

variable {p q : Pattern} {ps : List Pattern} {g : Glyph} {c d e : Cursor} {text back : List Char}

/-- Whether a pattern asks for no position. -/
def isUnanchored : Pattern → Bool
  | empty | one _ | many _ => true
  | wordEdge | lineStart | lineEnd => false
  | seq p q | alt p q => p.isUnanchored && q.isUnanchored

theorem isUnanchored_inOrder (h : ∀ p ∈ ps, p.isUnanchored = true) :
    (inOrder ps).isUnanchored = true := by
  induction ps with
  | nil => rfl
  | cons first rest ih =>
    obtain ⟨hfirst, hrest⟩ := List.forall_mem_cons.mp h
    cases rest with
    | nil => exact hfirst
    | cons second more => exact (Bool.and_eq_true _ _).mpr ⟨hfirst, ih hrest⟩

theorem isUnanchored_firstOf (h : ∀ p ∈ ps, p.isUnanchored = true) :
    (firstOf ps).isUnanchored = true := by
  induction ps with
  | nil => rfl
  | cons first rest ih =>
    obtain ⟨hfirst, hrest⟩ := List.forall_mem_cons.mp h
    cases rest with
    | nil => exact hfirst
    | cons second more => exact (Bool.and_eq_true _ _).mpr ⟨hfirst, ih hrest⟩

theorem isUnanchored_phrase (s : String) : (phrase s).isUnanchored = true := by
  refine isUnanchored_inOrder fun p hp => ?_
  obtain ⟨c, -, rfl⟩ := List.mem_map.mp hp
  rfl

/-! ## What was passed before -/

theorem map_ahead_runEnds (g : Glyph) (passed other : Option Char) (text : List Char) :
    (runEnds g passed text).map Cursor.ahead = (runEnds g other text).map Cursor.ahead := by
  cases text with
  | nil => rfl
  | cons x rest =>
    unfold runEnds
    split <;> simp

/-- **Where an unanchored pattern ends** hangs on what is ahead only. -/
theorem map_ahead_ends (h : p.isUnanchored = true) (hahead : c.ahead = d.ahead) :
    (p.ends c).map Cursor.ahead = (p.ends d).map Cursor.ahead := by
  induction p generalizing c d with
  | empty => simp [ends, hahead]
  | one g => simp only [ends, hahead]
  | many g =>
    simp only [ends, hahead]
    exact map_ahead_runEnds g c.passed d.passed d.ahead
  | wordEdge => cases h
  | lineStart => cases h
  | lineEnd => cases h
  | seq p q ihp ihq =>
    obtain ⟨hp, hq⟩ := (Bool.and_eq_true _ _).mp h
    -- the second part starts from every end of the first, of which only the text ahead counts
    have hsecond (e : Cursor) :
        (q.ends e).map Cursor.ahead = (q.ends ⟨none, e.ahead⟩).map Cursor.ahead := ihq hq rfl
    have hflat (es : List Cursor) : (es.flatMap q.ends).map Cursor.ahead =
        (es.map Cursor.ahead).flatMap fun rest => (q.ends ⟨none, rest⟩).map Cursor.ahead := by
      rw [List.map_flatMap, List.flatMap_map]
      exact congrArg (fun f => es.flatMap f) (funext hsecond)
    rw [ends, ends, hflat, hflat, ihp hp hahead]
  | alt p q ihp ihq =>
    obtain ⟨hp, hq⟩ := (Bool.and_eq_true _ _).mp h
    rw [ends, ends, List.map_append, List.map_append, ihp hp hahead, ihq hq hahead]

/-! ## What follows behind -/

theorem followedBy_mem_runEnds {passed : Option Char} (h : e ∈ runEnds g passed text) :
    e.followedBy back ∈ runEnds g passed (text ++ back) := by
  induction text generalizing passed with
  | nil =>
    obtain rfl := List.mem_singleton.mp h
    -- a run that stopped at the end of the text can stop there as well
    cases back with
    | nil => exact List.mem_singleton_self _
    | cons x rest =>
      change _ ∈ runEnds g passed (x :: rest)
      unfold runEnds
      split
      · exact List.mem_append_right _ (List.mem_singleton_self _)
      · exact List.mem_singleton_self _
  | cons x rest ih =>
    rw [List.cons_append]
    unfold runEnds at h ⊢
    split at h
    next hadmits =>
      rw [if_pos hadmits]
      rcases List.mem_append.mp h with h | h
      · exact List.mem_append_left _ (ih h)
      · obtain rfl := List.mem_singleton.mp h
        exact List.mem_append_right _ (List.mem_singleton_self _)
    next hadmits =>
      rw [if_neg hadmits]
      obtain rfl := List.mem_singleton.mp h
      exact List.mem_singleton_self _

/-- **A match is still one if the text goes on.** -/
theorem followedBy_mem_ends (h : p.isUnanchored = true) (hend : e ∈ p.ends c) :
    e.followedBy back ∈ p.ends (c.followedBy back) := by
  induction p generalizing c e with
  | empty =>
    obtain rfl := List.mem_singleton.mp hend
    exact List.mem_singleton_self _
  | one g =>
    obtain ⟨passed, ahead⟩ := c
    cases ahead with
    | nil => cases hend
    | cons x rest =>
      simp only [ends, stepEnds, Cursor.followedBy, List.cons_append] at hend ⊢
      split at hend
      next hadmits =>
        rw [if_pos hadmits]
        obtain rfl := List.mem_singleton.mp hend
        exact List.mem_singleton_self _
      next => cases hend
  | many g => exact followedBy_mem_runEnds hend
  | wordEdge => cases h
  | lineStart => cases h
  | lineEnd => cases h
  | seq p q ihp ihq =>
    obtain ⟨hp, hq⟩ := (Bool.and_eq_true _ _).mp h
    obtain ⟨middle, hfirst, hsecond⟩ := List.mem_flatMap.mp hend
    exact List.mem_flatMap.mpr ⟨middle.followedBy back, ihp hp hfirst, ihq hq hsecond⟩
  | alt p q ihp ihq =>
    obtain ⟨hp, hq⟩ := (Bool.and_eq_true _ _).mp h
    rcases List.mem_append.mp hend with hend | hend
    · exact List.mem_append_left _ (ihp hp hend)
    · exact List.mem_append_right _ (ihq hq hend)

/-- **What occurs in a text occurs in every text around it.** -/
theorem occursIn_context (h : p.isUnanchored = true) (hoccurs : p.occursIn text = true)
    (front back : List Char) : p.occursIn (front ++ text ++ back) = true := by
  obtain ⟨before, behind, rfl, hends⟩ := (occursIn_iff p text).mp hoccurs
  obtain ⟨e, he⟩ := List.exists_mem_of_ne_nil _ hends
  refine (occursIn_iff p _).mpr ⟨front ++ before, behind ++ back, by simp, fun hnil => ?_⟩
  have hmore : e.followedBy back ∈ p.ends ⟨before.getLast?, behind ++ back⟩ :=
    followedBy_mem_ends h he
  have hsame : (p.ends ⟨before.getLast?, behind ++ back⟩).map Cursor.ahead =
      (p.ends ⟨(front ++ before).getLast?, behind ++ back⟩).map Cursor.ahead :=
    map_ahead_ends h rfl
  rw [hnil, List.map_nil, List.map_eq_nil_iff] at hsame
  rw [hsame] at hmore
  exact absurd hmore List.not_mem_nil

end Pattern

end DocCoverage
