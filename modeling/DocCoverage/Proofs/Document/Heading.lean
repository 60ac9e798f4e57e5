import DocCoverage.Document.Quality
import DocCoverage.Proofs.Pattern.Describes
/-!
# Documents — where headings are seen

A section is seen behind a number sign: one of its titles follows, in either
case, with nothing but blanks in between (`occursIn_titled_iff`). Nothing is
asked of what stands in front of the number sign, so that a link into a
heading counts like the heading itself.
-/

namespace DocCoverage

namespace Heading

open Pattern

variable {ps : List Pattern} {titles : List String} {passed : Option Char}
  {text stretch back : List Char}

/-- Whether a title stands behind a number sign, with nothing but blanks in
between. The letters may be of either case, and the number sign may stand
anywhere in its line. -/
def Announced (title : String) (text : List Char) : Prop :=
  ∃ front gap word back, text = front ++ '#' :: (gap ++ (word ++ back)) ∧
    (∀ c ∈ gap, Text.isBlank c = true) ∧
      List.Forall₂ (fun a b => Text.sameLetter a b = true) title.toList word

/-- Whether a word stands behind a number sign, with blanks in between. -/
def WordAnnounced (text : List Char) : Prop :=
  ∃ front gap c back, text = front ++ '#' :: (gap ++ c :: back) ∧ gap ≠ [] ∧
    (∀ c ∈ gap, Text.isBlank c = true) ∧ Text.isWordChar c = true

theorem describes_mark : mark.Describes passed stretch back ↔ stretch = ['#'] ∨ stretch = ['#', '#'] := by
  constructor
  · rintro ⟨first, second, rfl, hfirst, hsecond⟩
    obtain rfl := describes_exactly.mp hfirst
    rcases describes_optional.mp hsecond with hsecond | rfl
    · obtain rfl := describes_exactly.mp hsecond
      exact .inr rfl
    · exact .inl rfl
  · rintro (rfl | rfl)
    · exact ⟨['#'], [], rfl, describes_exactly.mpr rfl, describes_optional.mpr (.inr rfl)⟩
    · exact ⟨['#'], ['#'], rfl, describes_exactly.mpr rfl,
        describes_optional.mpr (.inl (describes_exactly.mpr rfl))⟩

/-- **What begins with a mark is seen behind a number sign**, the second one
if there are two. -/
theorem occursIn_marked_iff : (inOrder (mark :: ps)).occursIn text = true ↔
    ∃ front stretch back, text = front ++ '#' :: (stretch ++ back) ∧
      (inOrder ps).Describes (some '#') stretch back := by
  rw [occursIn_iff_describes]
  constructor
  · rintro ⟨front, _, back, rfl, hdescribes⟩
    obtain ⟨_, stretch, rfl, hmark, hstretch⟩ := describes_inOrder_cons.mp hdescribes
    rcases describes_mark.mp hmark with rfl | rfl
    · exact ⟨front, stretch, back, by simp, hstretch⟩
    · exact ⟨front ++ ['#'], stretch, back, by simp, hstretch⟩
  · rintro ⟨front, stretch, back, rfl, hstretch⟩
    refine ⟨front, '#' :: stretch, back, by simp, describes_inOrder_cons.mpr ?_⟩
    exact ⟨['#'], stretch, rfl, describes_mark.mpr (.inl rfl), hstretch⟩

/-- **A heading is seen where one of its titles is announced.** -/
theorem occursIn_titled_iff (hne : titles ≠ []) :
    (titled titles).occursIn text = true ↔ ∃ title ∈ titles, Announced title text := by
  have hphrases : titles.map phrase ≠ [] := mt List.map_eq_nil_iff.mp hne
  rw [titled, occursIn_marked_iff]
  constructor
  · rintro ⟨front, _, back, rfl, gap, word, rfl, hgap, hword⟩
    obtain ⟨p, hp, hword⟩ := (describes_firstOf hphrases).mp hword
    obtain ⟨title, htitle, rfl⟩ := List.mem_map.mp hp
    exact ⟨title, htitle, front, gap, word, back, by rw [List.append_assoc], hgap,
      describes_phrase.mp hword⟩
  · rintro ⟨title, htitle, front, gap, word, back, rfl, hgap, hword⟩
    refine ⟨front, gap ++ word, back, by rw [List.append_assoc], gap, word, rfl, hgap, ?_⟩
    exact (describes_firstOf hphrases).mpr
      ⟨phrase title, List.mem_map_of_mem htitle, describes_phrase.mpr hword⟩

/-- **A heading of any title is seen where a word is announced.** -/
theorem occursIn_any_iff : Heading.any.occursIn text = true ↔ WordAnnounced text := by
  rw [Heading.any, occursIn_marked_iff]
  constructor
  · rintro ⟨front, _, back, rfl, gap, word, rfl, hgap, hword⟩
    obtain ⟨hgap_ne, hblank⟩ := describes_atLeastOne.mp hgap
    obtain ⟨hword_ne, hletters⟩ := describes_atLeastOne.mp hword
    obtain ⟨c, more, rfl⟩ := List.exists_cons_of_ne_nil hword_ne
    exact ⟨front, gap, c, more ++ back, by simp, hgap_ne, hblank, hletters c List.mem_cons_self⟩
  · rintro ⟨front, gap, c, back, rfl, hgap_ne, hblank, hc⟩
    refine ⟨front, gap ++ [c], back, by simp, gap, [c], rfl, ?_, ?_⟩
    · exact describes_atLeastOne.mpr ⟨hgap_ne, hblank⟩
    · exact describes_atLeastOne.mpr ⟨List.cons_ne_nil c [], List.forall_mem_singleton.mpr hc⟩

end Heading

end DocCoverage
