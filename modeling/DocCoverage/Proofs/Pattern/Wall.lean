import DocCoverage.Proofs.Pattern.Context
import Mathlib.Data.List.Basic
/-!
# Patterns — walls

A pattern refuses a character if it never passes it, and if it takes it for
the end of the text where it asks for a position. To such a pattern the
character is a wall: its matches in front of the wall are those in a text
that ends there (`ends_followedBy`).

A run of anything but an equals sign passes every wall of another kind. If
such a run is all that passes it, and an equals sign must follow, then an
equals sign in front of the wall is a gate that the pattern has to take, and
nothing behind the wall is seen either (`ends_followedBy_of_gate`).
-/

namespace DocCoverage

namespace Cursor

variable {c e : Cursor} {back : List Char} {w : Char}

@[simp] theorem followedBy_passed : (c.followedBy back).passed = c.passed := rfl

@[simp] theorem followedBy_ahead : (c.followedBy back).ahead = c.ahead ++ back := rfl

theorem followedBy_followedBy (back more : List Char) :
    (c.followedBy back).followedBy more = c.followedBy (back ++ more) := by
  simp [followedBy, List.append_assoc]

theorem atLineStart_followedBy : (c.followedBy back).atLineStart = c.atLineStart := rfl

/-- In front of anything but a word character a word ends as at the end of the
text. -/
theorem atWordEdge_followedBy (hw : Text.isWordChar w = false) :
    (c.followedBy (w :: back)).atWordEdge = c.atWordEdge := by
  obtain ⟨passed, ahead⟩ := c
  cases ahead with
  | nil => simp [atWordEdge, followedBy, hw]
  | cons x rest => rfl

/-- In front of a line feed a line ends as at the end of the text. -/
theorem atLineEnd_followedBy : (c.followedBy ('\n' :: back)).atLineEnd = c.atLineEnd := by
  obtain ⟨passed, ahead⟩ := c
  cases ahead with
  | nil => rfl
  | cons x rest => rfl

end Cursor

namespace Pattern

variable {p q : Pattern} {ps : List Pattern} {g : Glyph} {c e : Cursor} {passed : Option Char}
  {text back : List Char} {w gate : Char}

/-! ## Ends lie behind -/

theorem suffix_of_mem_runEnds (h : e ∈ runEnds g passed text) : e.ahead <:+ text := by
  induction text generalizing passed with
  | nil =>
    obtain rfl := List.mem_singleton.mp h
    exact List.suffix_rfl
  | cons x rest ih =>
    unfold runEnds at h
    split at h
    · rcases List.mem_append.mp h with h | h
      · exact (ih h).trans (List.suffix_cons x rest)
      · obtain rfl := List.mem_singleton.mp h
        exact List.suffix_rfl
    · obtain rfl := List.mem_singleton.mp h
      exact List.suffix_rfl

/-- At a position a match ends where it began. -/
theorem eq_of_mem_here {isHere : Bool} (h : e ∈ if isHere then [c] else []) : e = c :=
  List.mem_singleton.mp (List.mem_ite_nil_right.mp h).2

/-- **A match leaves a part of the text ahead.** -/
theorem suffix_of_mem_ends (h : e ∈ p.ends c) : e.ahead <:+ c.ahead := by
  induction p generalizing c e with
  | empty =>
    obtain rfl := List.mem_singleton.mp h
    exact List.suffix_rfl
  | one g =>
    obtain ⟨passed, ahead⟩ := c
    cases ahead with
    | nil => cases h
    | cons x rest =>
      obtain ⟨-, hmem⟩ := List.mem_ite_nil_right.mp h
      obtain rfl := List.mem_singleton.mp hmem
      exact List.suffix_cons x rest
  | many g => exact suffix_of_mem_runEnds h
  | wordEdge | lineStart | lineEnd =>
    obtain rfl := eq_of_mem_here h
    exact List.suffix_rfl
  | seq p q ihp ihq =>
    obtain ⟨middle, hfirst, hsecond⟩ := List.mem_flatMap.mp h
    exact (ihq hsecond).trans (ihp hfirst)
  | alt p q ihp ihq =>
    rcases List.mem_append.mp h with h | h
    · exact ihp h
    · exact ihq h

/-! ## Walls -/

/-- Whether a pattern refuses a character: it never passes it, and where it
asks for a position, the character is like the end of the text. -/
def refuses (w : Char) : Pattern → Bool
  | empty | lineStart => true
  | one g | many g => !g.admits w
  | wordEdge => !Text.isWordChar w
  | lineEnd => w == '\n'
  | seq p q | alt p q => p.refuses w && q.refuses w

theorem runEnds_followedBy (h : g.admits w = false) :
    runEnds g passed (text ++ w :: back) =
      (runEnds g passed text).map fun e => e.followedBy (w :: back) := by
  induction text generalizing passed with
  | nil => simp [runEnds, h, Cursor.followedBy]
  | cons x rest ih =>
    rw [List.cons_append, runEnds, runEnds, ih]
    split <;> simp [Cursor.followedBy]

/-- **Nothing behind a wall is seen.** In front of a character that a pattern
refuses its matches are those in a text that ends there. -/
theorem ends_followedBy (h : p.refuses w = true) :
    p.ends (c.followedBy (w :: back)) = (p.ends c).map fun e => e.followedBy (w :: back) := by
  induction p generalizing c with
  | empty => rfl
  | one g =>
    have hrefuses : g.admits w = false := by simpa [refuses] using h
    obtain ⟨passed, ahead⟩ := c
    cases ahead with
    | nil => simp [ends, stepEnds, Cursor.followedBy, hrefuses]
    | cons x rest =>
      simp only [ends, stepEnds, Cursor.followedBy, List.cons_append]
      split <;> rfl
  | many g =>
    have hrefuses : g.admits w = false := by simpa [refuses] using h
    exact runEnds_followedBy hrefuses
  | wordEdge =>
    have hword : Text.isWordChar w = false := by simpa [refuses] using h
    rw [ends, ends, Cursor.atWordEdge_followedBy hword]
    split <;> rfl
  | lineStart =>
    rw [ends, ends, Cursor.atLineStart_followedBy]
    split <;> rfl
  | lineEnd =>
    obtain rfl : w = '\n' := by simpa [refuses] using h
    rw [ends, ends, Cursor.atLineEnd_followedBy]
    split <;> rfl
  | seq p q ihp ihq =>
    obtain ⟨hp, hq⟩ := (Bool.and_eq_true _ _).mp h
    rw [ends, ends, ihp hp, List.map_flatMap, List.flatMap_map]
    exact congrArg (fun f => (p.ends c).flatMap f) (funext fun e => ihq hq)
  | alt p q ihp ihq =>
    obtain ⟨hp, hq⟩ := (Bool.and_eq_true _ _).mp h
    rw [ends, ends, List.map_append, ihp hp, ihq hq]

/-! ## Gates -/

/-- A pattern that refuses a character ahead sees only the text in front of
it. -/
theorem ends_eq_of_refused (h : p.refuses gate = true) (hgate : gate ∈ c.ahead) :
    ∃ front more, c.ahead = front ++ gate :: more ∧ ∀ rest,
      p.ends ⟨c.passed, front ++ gate :: rest⟩ =
        (p.ends ⟨c.passed, front⟩).map fun e => e.followedBy (gate :: rest) := by
  obtain ⟨front, more, hahead⟩ := List.append_of_mem hgate
  exact ⟨front, more, hahead, fun rest => ends_followedBy (c := ⟨c.passed, front⟩) h⟩

/-- Its matches end in front of that character. -/
theorem mem_ahead_of_refused (h : p.refuses gate = true) (hgate : gate ∈ c.ahead)
    (he : e ∈ p.ends c) : gate ∈ e.ahead := by
  obtain ⟨front, more, hahead, hends⟩ := ends_eq_of_refused h hgate
  have hc : c = ⟨c.passed, front ++ gate :: more⟩ := by rw [← hahead]
  rw [hc, hends more] at he
  obtain ⟨inner, -, rfl⟩ := List.mem_map.mp he
  exact List.mem_append_right _ (List.mem_cons_self ..)

/-- They do not see what is added at the end of the text. -/
theorem ends_followedBy_of_refused (h : p.refuses gate = true) (hgate : gate ∈ c.ahead)
    (back : List Char) :
    p.ends (c.followedBy back) = (p.ends c).map fun e => e.followedBy back := by
  obtain ⟨front, more, hahead, hends⟩ := ends_eq_of_refused h hgate
  have hc : p.ends c = (p.ends ⟨c.passed, front⟩).map fun e => e.followedBy (gate :: more) := by
    rw [← hends more, ← hahead]
  have hmore : c.followedBy back = ⟨c.passed, front ++ gate :: (more ++ back)⟩ := by
    rw [Cursor.followedBy, hahead, List.append_assoc, List.cons_append]
  rw [hmore, hends, hc, List.map_map]
  refine List.map_congr_left fun inner _ => ?_
  rw [Function.comp_apply, Cursor.followedBy_followedBy, List.cons_append]

/-- Whether a pattern refuses one character as soon as it has passed another,
the gate: some first parts of it refuse the gate, and the rest refuses the
character. -/
def isGated (gate w : Char) : Pattern → Bool
  | seq p q => (p.refuses gate && q.isGated gate w) || (p.refuses w && q.refuses w)
  | p => p.refuses w

/-- **A gate in front of a wall is as good as no way around it.** -/
theorem ends_followedBy_of_gate (h : p.isGated gate w = true) (hgate : gate ∈ c.ahead) :
    p.ends (c.followedBy (w :: back)) = (p.ends c).map fun e => e.followedBy (w :: back) := by
  induction p generalizing c with
  | seq p q ihp ihq =>
    rw [isGated, Bool.or_eq_true] at h
    rcases h with h | h
    · obtain ⟨hp, hq⟩ := (Bool.and_eq_true _ _).mp h
      rw [ends, ends, ends_followedBy_of_refused hp hgate, List.map_flatMap, List.flatMap_map]
      exact List.flatMap_congr fun e he => ihq hq (mem_ahead_of_refused hp hgate he)
    · exact ends_followedBy h
  | empty | one | many | wordEdge | lineStart | lineEnd | alt => exact ends_followedBy h

/-- Whether every match of a pattern passes this character. -/
def demands (gate : Char) : Pattern → Bool
  | one g => g == .exactly gate
  | seq p q => p.demands gate || q.demands gate
  | alt p q => p.demands gate && q.demands gate
  | _ => false

theorem mem_of_demands (h : p.demands gate = true) (hend : e ∈ p.ends c) : gate ∈ c.ahead := by
  induction p generalizing c e with
  | one g =>
    obtain rfl : g = .exactly gate := by simpa [demands] using h
    obtain ⟨passed, ahead⟩ := c
    cases ahead with
    | nil => cases hend
    | cons x rest =>
      obtain ⟨hadmits, -⟩ := List.mem_ite_nil_right.mp hend
      obtain rfl : x = gate := by simpa [Glyph.admits] using hadmits
      exact List.mem_cons_self ..
  | seq p q ihp ihq =>
    obtain ⟨middle, hfirst, hsecond⟩ := List.mem_flatMap.mp hend
    rw [demands, Bool.or_eq_true] at h
    rcases h with h | h
    · exact ihp h hfirst
    · exact (suffix_of_mem_ends hfirst).mem (ihq h hsecond)
  | alt p q ihp ihq =>
    obtain ⟨hp, hq⟩ := (Bool.and_eq_true _ _).mp h
    rcases List.mem_append.mp hend with hend | hend
    · exact ihp hp hend
    · exact ihq hq hend
  | empty | many | wordEdge | lineStart | lineEnd => cases h

end Pattern

end DocCoverage
