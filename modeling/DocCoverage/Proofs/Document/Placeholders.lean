import DocCoverage.Document.Meaningful
import DocCoverage.Proofs.Pattern.Describes
import DocCoverage.Proofs.Text.Stretches
/-!
# Documents — placeholder lines

A placeholder is a line that says nothing but one of a few phrases, with a mark
behind it or not. A phrase that is matched as it is holds no line feed, so that
it is found in a text if and only if it is a whole line
(`occursIn_bareLine_phrase_iff`). The words that promise documentation are
matched with any blanks in between: they are found in a stretch of whole lines,
over which they may be spread (`occursIn_bareLine_iff`). The notice that a text
was generated stays within one line (`occursIn_generatedNotice_iff`).
-/

namespace DocCoverage

namespace Document

open Pattern
open Text (AreBlank IsSolid WholeLines foldCase isBlank pieces trim)

variable {p : Pattern} {said : List Char → Prop} {wording mark : String} {passed : Option Char}
  {text stretch back words : List Char}

/-! ## What a line says -/

/-- Whether a text reads as a phrase, in letters of either case. -/
def Reads (wording : String) (text : List Char) : Prop :=
  List.Forall₂ (fun a b => Text.sameLetter a b = true) wording.toList text

/-- Whether a text is what is to be said, or that and a mark behind it, with or
without blanks in between. -/
def Marked (said : List Char → Prop) (mark : String) (text : List Char) : Prop :=
  said text ∨ ∃ words gap, text = words ++ gap ++ mark.toList ∧ said words ∧ AreBlank gap

/-- Whether a text reads as three words with blanks in between. -/
def Spaced (one two three : String) (text : List Char) : Prop :=
  ∃ first gap second gap' third, text = first ++ gap ++ second ++ gap' ++ third ∧
    Reads one first ∧ Reads two second ∧ Reads three third ∧
    (gap ≠ [] ∧ AreBlank gap) ∧ (gap' ≠ [] ∧ AreBlank gap')

/-- Whether a text promises documentation. -/
def Promises (text : List Char) : Prop := Spaced "Documentation" "coming" "soon" text

/-- The phrases that make a placeholder, each with its mark. -/
def bareWords : List (String × String) :=
  [("TODO", ":"), ("STUB", ":"), ("Coming soon", "."), ("Placeholder", "."), ("TBD", "."),
    ("WIP", ".")]

/-- Whether a line, the blanks at its ends aside, is a placeholder. -/
def IsPlaceholder (line : List Char) : Prop :=
  (∃ bare ∈ bareWords, Marked (Reads bare.1) bare.2 line) ∨ Marked Promises "." line

/-- Whether a line says one thing and later another. -/
def SaysInTurn (one other : String) (line : List Char) : Prop :=
  ∃ front first between second back, line = front ++ first ++ between ++ second ++ back ∧
    Reads one first ∧ Reads other second

/-- Whether a line says that the text was generated. -/
def SaysGenerated (line : List Char) : Prop :=
  SaysInTurn "Documentation Needed" "This file was automatically generated" line

/-! ## Phrases -/

theorem reads_iff_map_eq :
    Reads wording text ↔ text.map foldCase = wording.toList.map foldCase := by
  rw [Reads]
  induction wording.toList generalizing text with
  | nil => simp
  | cons letter rest ih =>
    cases text with
    | nil => simp
    | cons c more =>
      rw [List.forall₂_cons, ih, List.map_cons, List.map_cons, List.cons.injEq, Text.sameLetter,
        beq_iff_eq]
      exact and_congr_left fun _ => eq_comm

/-- A blank has no other case. -/
theorem foldCase_of_isBlank {c : Char} (h : isBlank c = true) : foldCase c = c := by
  have hcapital : ¬ ('A' ≤ c ∧ c ≤ 'Z') := by
    rintro ⟨hfirst, hlast⟩
    have hlow : 65 ≤ c.toNat := hfirst
    have hhigh : c.toNat ≤ 90 := hlast
    simp only [isBlank, Bool.or_eq_true, Bool.and_eq_true, decide_eq_true_eq, beq_iff_eq] at h
    omega
  have hlong : c ≠ '\u017f' := fun heq => by
    subst heq
    revert h
    decide
  have hkelvin : c ≠ '\u212a' := fun heq => by
    subst heq
    revert h
    decide
  rw [foldCase, if_neg hlong, if_neg hkelvin, Text.lowerAscii, if_neg hcapital]

/-- A text that reads as a solid phrase is solid. -/
theorem isSolid_of_reads (hwording : IsSolid (wording.toList.map foldCase))
    (h : Reads wording text) : IsSolid text := by
  rw [← reads_iff_map_eq.mp h] at hwording
  have hnot {c : Char} (hc : isBlank (foldCase c) = false) : isBlank c = false := by
    by_contra hblank
    rw [foldCase_of_isBlank (Bool.not_eq_false _ ▸ hblank)] at hc
    exact hblank hc
  exact
    { ne_nil := fun hnil => hwording.ne_nil (List.map_eq_nil_iff.mpr hnil)
      head := fun c hc => hnot (hwording.head (foldCase c) (by
        rw [List.head?_map]
        exact Option.mem_map_of_mem foldCase hc))
      last := fun c hc => hnot (hwording.last (foldCase c) (by
        rw [List.getLast?_map]
        exact Option.mem_map_of_mem foldCase hc)) }

theorem not_mem_of_reads (hwording : '\n' ∉ wording.toList.map foldCase) (h : Reads wording text) :
    '\n' ∉ text := by
  intro hmem
  rw [← reads_iff_map_eq.mp h] at hwording
  exact hwording (List.mem_map.mpr ⟨'\n', hmem, by decide⟩)

/-! ## Stretches of whole lines -/

/-- What is said, the blanks behind it, and the mark or nothing. -/
theorem Marked.parts (h : Marked said mark text) : ∃ words gap tail,
    text = words ++ gap ++ tail ∧ said words ∧ AreBlank gap ∧
      (tail = mark.toList ∨ tail = []) := by
  rcases h with h | ⟨words, gap, rfl, hwords, hgap⟩
  · exact ⟨text, [], [], by simp, h, List.forall_mem_nil _, .inr rfl⟩
  · exact ⟨words, gap, mark.toList, rfl, hwords, hgap, .inl rfl⟩

/-- Behind what is said its line ends with blanks, or with the mark and
blanks. -/
theorem areBlank_or_mark_of_parts {gap tail pad : List Char} (hgap : AreBlank gap)
    (htail : tail = mark.toList ∨ tail = []) (hpad : AreBlank pad)
    (hfree : '\n' ∉ mark.toList) :
    AreBlank ((gap ++ tail ++ pad).takeWhile (· != '\n')) ∨
      ∃ more, (gap ++ tail ++ pad).takeWhile (· != '\n') = gap ++ mark.toList ++ more ∧
        AreBlank more := by
  have htaken {text : List Char} (htext : AreBlank text) :
      AreBlank (text.takeWhile (· != '\n')) :=
    fun c hc => htext c ((List.takeWhile_prefix _).subset hc)
  rcases htail with rfl | rfl
  · rw [List.append_assoc, List.takeWhile_append]
    split
    · have hmark : ∀ c ∈ mark.toList, (c != '\n') = true :=
        fun c hc => bne_iff_ne.mpr fun heq => hfree (heq ▸ hc)
      refine .inr ⟨pad.takeWhile (· != '\n'), ?_, htaken hpad⟩
      rw [List.takeWhile_append_of_pos hmark, List.append_assoc]
    · exact .inl (htaken hgap)
  · rw [List.append_nil]
    exact .inl (htaken (hgap.append hpad))

section BareLine

variable (hsaid : ∀ {passed : Option Char} {stretch back : List Char},
    p.Describes passed stretch back ↔ said stretch)
  (hsolid : ∀ {text : List Char}, said text → IsSolid text) (hmark : IsSolid mark.toList)

include hsolid hmark in
/-- What is said is solid, with its mark as well. -/
theorem isSolid_of_marked (h : Marked said mark text) : IsSolid text := by
  rcases h with h | ⟨words, gap, rfl, hwords, -⟩
  · exact hsolid h
  · exact (hsolid hwords).around hmark gap

include hsaid in
/-- A bare line describes what is said and its mark, with blanks around. -/
theorem describes_bareLine_iff : (bareLine p mark).Describes passed stretch back ↔
    passed.all (· == '\n') = true ∧ back.head?.all (· == '\n') = true ∧
      ∃ pad core pad', stretch = pad ++ core ++ pad' ∧ AreBlank pad ∧ Marked said mark core ∧
        AreBlank pad' := by
  constructor
  · intro h
    obtain ⟨_, _, rfl, ⟨rfl, hstart⟩, h⟩ := describes_inOrder_cons.mp h
    obtain ⟨pad, _, rfl, hpad, h⟩ := describes_inOrder_cons.mp h
    obtain ⟨words, _, rfl, hwords, h⟩ := describes_inOrder_cons.mp h
    obtain ⟨gap, _, rfl, hgap, h⟩ := describes_inOrder_cons.mp h
    obtain ⟨tail, _, rfl, htail, h⟩ := describes_inOrder_cons.mp h
    obtain ⟨pad', _, rfl, hpad', rfl, hend⟩ := describes_inOrder_cons.mp h
    refine ⟨hstart, hend, ?_⟩
    rcases describes_optional.mp htail with htail | rfl
    · obtain rfl := describes_exactly.mp htail
      exact ⟨pad, words ++ gap ++ mark.toList, pad', by simp, hpad,
        .inr ⟨words, gap, rfl, hsaid.mp hwords, hgap⟩, hpad'⟩
    · exact ⟨pad, words, gap ++ pad', by simp, hpad, .inl (hsaid.mp hwords),
        AreBlank.append hgap hpad'⟩
  · rintro ⟨hstart, hend, pad, _, pad', rfl, hpad, hcore, hpad'⟩
    obtain ⟨words, gap, tail, rfl, hwords, hgap, htail⟩ := hcore.parts
    refine describes_inOrder_cons.mpr ⟨[], _, rfl, ⟨rfl, hstart⟩, ?_⟩
    refine describes_inOrder_cons.mpr ⟨pad, words ++ (gap ++ (tail ++ pad')), by simp, hpad, ?_⟩
    refine describes_inOrder_cons.mpr ⟨words, _, rfl, hsaid.mpr hwords, ?_⟩
    refine describes_inOrder_cons.mpr ⟨gap, _, rfl, hgap, ?_⟩
    refine describes_inOrder_cons.mpr ⟨tail, _, rfl, ?_, ?_⟩
    · exact describes_optional.mpr (htail.imp_left describes_exactly.mpr)
    · exact describes_inOrder_cons.mpr ⟨pad', [], by simp, hpad', rfl, hend⟩

include hsaid hsolid hmark in
/-- **A bare line occurs where whole lines hold nothing but what is said** and
its mark, with blanks around. -/
theorem occursIn_bareLine_iff : (bareLine p mark).occursIn text = true ↔
    ∃ stretch, WholeLines text stretch ∧ Marked said mark (trim stretch) := by
  rw [occursIn_iff_describes]
  constructor
  · rintro ⟨front, stretch, back, rfl, h⟩
    obtain ⟨hfront, hback, pad, core, pad', rfl, hpad, hcore, hpad'⟩ :=
      (describes_bareLine_iff hsaid).mp h
    refine ⟨_, ⟨front, back, rfl, hfront, hback⟩, ?_⟩
    rwa [Text.trim_padded hpad (isSolid_of_marked hsolid hmark hcore) hpad']
  · rintro ⟨stretch, ⟨front, back, rfl, hfront, hback⟩, hcore⟩
    obtain ⟨pad, pad', hstretch, hpad, hpad'⟩ := Text.exists_padded stretch
    exact ⟨front, stretch, back, rfl, (describes_bareLine_iff hsaid).mpr
      ⟨hfront, hback, pad, trim stretch, pad', hstretch, hpad, hcore, hpad'⟩⟩

include hsolid hmark in
/-- What holds no line feed is said in whole lines if and only if a single line
says it: of a mark that stands on a later line nothing is needed. -/
theorem exists_wholeLines_iff (hfree : ∀ {text : List Char}, said text → '\n' ∉ text)
    (hfree_mark : '\n' ∉ mark.toList) :
    (∃ stretch, WholeLines text stretch ∧ Marked said mark (trim stretch)) ↔
      ∃ line ∈ pieces (· == '\n') text, Marked said mark (trim line) := by
  constructor
  · rintro ⟨stretch, hwhole, hcore⟩
    obtain ⟨pad, pad', hstretch, hpad, hpad'⟩ := Text.exists_padded stretch
    obtain ⟨words, gap, tail, hparts, hwords, hgap, htail⟩ := hcore.parts
    obtain ⟨before, behind, hbefore, rfl, hline⟩ :=
      Text.exists_line_around (hfree hwords) pad (gap ++ tail ++ pad')
    have hpieces : pad ++ words ++ (gap ++ tail ++ pad') = stretch := by
      rw [hstretch, hparts]
      simp only [List.append_assoc]
    rw [hpieces] at hline
    refine ⟨_, Text.pieces_subset_of_wholeLines hwhole hline, ?_⟩
    have hblank : AreBlank before := fun c hc => hpad c (hbefore.subset hc)
    rcases areBlank_or_mark_of_parts hgap htail hpad' hfree_mark with
      hbehind | ⟨more, hbehind, hmore⟩
    · rw [Text.trim_padded hblank (hsolid hwords) hbehind]
      exact .inl hwords
    · have hmarked : Marked said mark (words ++ gap ++ mark.toList) :=
        .inr ⟨words, gap, rfl, hwords, hgap⟩
      have htrim := Text.trim_padded hblank (isSolid_of_marked hsolid hmark hmarked) hmore
      rw [hbehind]
      simp only [List.append_assoc] at htrim ⊢
      rw [htrim]
      simpa only [List.append_assoc] using hmarked
  · rintro ⟨line, hline, hcore⟩
    exact ⟨line, (Text.mem_pieces_iff.mp hline).1, hcore⟩

end BareLine

/-! ## The placeholders -/

/-- Three words with blanks in between. -/
def spaced (one two three : String) : Pattern :=
  inOrder [phrase one, blanks, phrase two, blanks, phrase three]

theorem describes_spaced {one two three : String} :
    (spaced one two three).Describes passed stretch back ↔ Spaced one two three stretch := by
  constructor
  · intro h
    obtain ⟨first, _, rfl, hfirst, h⟩ := describes_inOrder_cons.mp h
    obtain ⟨gap, _, rfl, hgap, h⟩ := describes_inOrder_cons.mp h
    obtain ⟨second, _, rfl, hsecond, h⟩ := describes_inOrder_cons.mp h
    obtain ⟨gap', third, rfl, hgap', hthird⟩ := describes_inOrder_cons.mp h
    exact ⟨first, gap, second, gap', third, by simp, describes_phrase.mp hfirst,
      describes_phrase.mp hsecond, describes_phrase.mp hthird, describes_atLeastOne.mp hgap,
      describes_atLeastOne.mp hgap'⟩
  · rintro ⟨first, gap, second, gap', third, rfl, hfirst, hsecond, hthird, hgap, hgap'⟩
    refine describes_inOrder_cons.mpr ⟨first, gap ++ (second ++ (gap' ++ third)), by simp,
      describes_phrase.mpr hfirst, ?_⟩
    refine describes_inOrder_cons.mpr ⟨gap, _, rfl, describes_atLeastOne.mpr hgap, ?_⟩
    refine describes_inOrder_cons.mpr ⟨second, _, rfl, describes_phrase.mpr hsecond, ?_⟩
    exact describes_inOrder_cons.mpr ⟨gap', third, rfl, describes_atLeastOne.mpr hgap',
      describes_phrase.mpr hthird⟩

/-- The three words that promise documentation. -/
def promise : Pattern := spaced "Documentation" "coming" "soon"

theorem describes_promise : promise.Describes passed stretch back ↔ Promises stretch :=
  describes_spaced

theorem isSolid_of_promises (h : Promises text) : IsSolid text := by
  obtain ⟨first, gap, second, gap', third, rfl, hfirst, -, hthird, -, -⟩ := h
  have hbegin : IsSolid first := isSolid_of_reads (by decide) hfirst
  have hend : IsSolid third := isSolid_of_reads (by decide) hthird
  have hsolid := hbegin.around hend (gap ++ second ++ gap')
  simpa only [List.append_assoc] using hsolid

/-- **A bare phrase occurs where a line reads as the phrase.** -/
theorem occursIn_bareLine_phrase_iff (hwording : IsSolid (wording.toList.map foldCase))
    (hfree : '\n' ∉ wording.toList.map foldCase) (hmark : IsSolid mark.toList)
    (hfree_mark : '\n' ∉ mark.toList) :
    (bareLine (phrase wording) mark).occursIn text = true ↔
      ∃ line ∈ pieces (· == '\n') text, Marked (Reads wording) mark (trim line) := by
  have hoccurs : (bareLine (phrase wording) mark).occursIn text = true ↔
      ∃ stretch, WholeLines text stretch ∧ Marked (Reads wording) mark (trim stretch) :=
    occursIn_bareLine_iff describes_phrase (isSolid_of_reads hwording) hmark
  rw [hoccurs]
  exact exists_wholeLines_iff (isSolid_of_reads hwording) hmark (not_mem_of_reads hfree) hfree_mark

theorem placeholders_perm : placeholders.Perm
    (bareLine promise "." :: bareWords.map fun bare => bareLine (phrase bare.1) bare.2) := by
  rw [placeholders]
  exact @List.perm_middle _ _ [_, _, _] _

theorem mem_placeholders_iff : p ∈ placeholders ↔
    p = bareLine promise "." ∨ ∃ bare ∈ bareWords, bareLine (phrase bare.1) bare.2 = p := by
  rw [placeholders_perm.mem_iff, List.mem_cons, List.mem_map]

/-- **A text holds a placeholder** if one of its lines is one, or if whole lines
of it together promise documentation. -/
theorem any_placeholders_iff : (placeholders.any fun line => line.occursIn text) = true ↔
    (∃ line ∈ pieces (· == '\n') text, IsPlaceholder (trim line)) ∨
      ∃ stretch, WholeLines text stretch ∧ Marked Promises "." (trim stretch) := by
  have hbare : ∀ bare ∈ bareWords, IsSolid (bare.1.toList.map foldCase) ∧
      '\n' ∉ bare.1.toList.map foldCase ∧ IsSolid bare.2.toList ∧ '\n' ∉ bare.2.toList := by decide
  have hphrase {bare : String × String} (hmem : bare ∈ bareWords) :
      (bareLine (phrase bare.1) bare.2).occursIn text = true ↔
        ∃ line ∈ pieces (· == '\n') text, Marked (Reads bare.1) bare.2 (trim line) := by
    obtain ⟨hsolid, hfree, hmark, hfree_mark⟩ := hbare bare hmem
    exact occursIn_bareLine_phrase_iff hsolid hfree hmark hfree_mark
  have hpromise : (bareLine promise ".").occursIn text = true ↔
      ∃ stretch, WholeLines text stretch ∧ Marked Promises "." (trim stretch) :=
    occursIn_bareLine_iff describes_promise isSolid_of_promises (by decide)
  rw [List.any_eq_true]
  constructor
  · rintro ⟨p, hp, hoccurs⟩
    rcases mem_placeholders_iff.mp hp with rfl | ⟨bare, hmem, rfl⟩
    · exact .inr (hpromise.mp hoccurs)
    · obtain ⟨line, hline, hmarked⟩ := (hphrase hmem).mp hoccurs
      exact .inl ⟨line, hline, .inl ⟨bare, hmem, hmarked⟩⟩
  · rintro (⟨line, hline, ⟨bare, hmem, hmarked⟩ | hmarked⟩ | hstretch)
    · exact ⟨_, mem_placeholders_iff.mpr (.inr ⟨bare, hmem, rfl⟩),
        (hphrase hmem).mpr ⟨line, hline, hmarked⟩⟩
    · exact ⟨_, mem_placeholders_iff.mpr (.inl rfl),
        hpromise.mpr ⟨line, (Text.mem_pieces_iff.mp hline).1, hmarked⟩⟩
    · exact ⟨_, mem_placeholders_iff.mpr (.inl rfl), hpromise.mpr hstretch⟩

/-! ## The notice of a generated text -/

/-- **What stays within a line occurs where a line says it.** -/
theorem occursIn_inTurn_iff {one other : String} (hone : '\n' ∉ one.toList.map foldCase)
    (hother : '\n' ∉ other.toList.map foldCase) :
    (inOrder [phrase one, many (.anyBut '\n'), phrase other]).occursIn text = true ↔
      ∃ line ∈ pieces (· == '\n') text, SaysInTurn one other line := by
  rw [occursIn_iff_describes]
  constructor
  · rintro ⟨front, _, back, rfl, h⟩
    obtain ⟨first, _, rfl, hfirst, h⟩ := describes_inOrder_cons.mp h
    obtain ⟨between, second, rfl, hbetween, hsecond⟩ := describes_inOrder_cons.mp h
    have hfirst : Reads one first := describes_phrase.mp hfirst
    have hsecond : Reads other second := describes_phrase.mp hsecond
    have hfree : '\n' ∉ first ++ (between ++ second) := by
      intro hmem
      rcases List.mem_append.mp hmem with hmem | hmem
      · exact not_mem_of_reads hone hfirst hmem
      rcases List.mem_append.mp hmem with hmem | hmem
      · exact absurd (hbetween '\n' hmem) (by decide)
      · exact not_mem_of_reads hother hsecond hmem
    obtain ⟨before, behind, -, -, hline⟩ := Text.exists_line_around hfree front back
    exact ⟨_, hline, before, first, between, second, behind, by simp, hfirst, hsecond⟩
  · rintro ⟨line, hline, before, first, between, second, behind, rfl, hfirst, hsecond⟩
    obtain ⟨⟨front, back, rfl, -, -⟩, hfree⟩ := Text.mem_pieces_iff.mp hline
    have hbetween : ∀ c ∈ between, (Glyph.anyBut '\n').admits c = true := by
      intro c hc
      refine bne_iff_ne.mpr fun heq => hfree ?_
      subst heq
      simp [hc]
    refine ⟨front ++ before, first ++ (between ++ second), behind ++ back, by simp, ?_⟩
    refine describes_inOrder_cons.mpr ⟨first, _, rfl, describes_phrase.mpr hfirst, ?_⟩
    exact describes_inOrder_cons.mpr ⟨between, second, rfl, hbetween, describes_phrase.mpr hsecond⟩

theorem occursIn_generatedNotice_iff : generatedNotice.occursIn text = true ↔
    ∃ line ∈ pieces (· == '\n') text, SaysGenerated line :=
  occursIn_inTurn_iff (by decide) (by decide)

end Document

end DocCoverage
