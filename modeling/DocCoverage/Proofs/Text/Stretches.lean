import DocCoverage.Proofs.Text.Lines
/-!
# Text — stretches of whole lines

A stretch of a text is made of whole lines if it begins where a line begins and
ends where a line ends. The lines are those of these stretches that hold no line
feed (`mem_pieces_iff`), and whatever holds no line feed lies in one of them
(`exists_line_around`). Trimming takes the blanks off both ends of a stretch and
leaves the rest as it is (`trim_padded`).
-/

namespace DocCoverage

namespace Text

variable {text stretch line front core rest back : List Char}

/-! ## Blanks around a text -/

/-- Whether a text is made of blanks. -/
def AreBlank (text : List Char) : Prop := ∀ c ∈ text, isBlank c = true

/-- Whether a text has something in it and no blank at its ends. -/
structure IsSolid (text : List Char) : Prop where
  ne_nil : text ≠ []
  head : ∀ c ∈ text.head?, isBlank c = false
  last : ∀ c ∈ text.getLast?, isBlank c = false

theorem AreBlank.append (h : AreBlank front) (h' : AreBlank back) : AreBlank (front ++ back) :=
  List.forall_mem_append.mpr ⟨h, h'⟩

/-- What begins and ends with solid texts is solid. -/
theorem IsSolid.around (hfront : IsSolid front) (hback : IsSolid back) (text : List Char) :
    IsSolid (front ++ text ++ back) where
  ne_nil := by simp [hfront.ne_nil]
  head c hc := by
    rw [List.append_assoc, List.head?_append_of_ne_nil _ hfront.ne_nil] at hc
    exact hfront.head c hc
  last c hc := by
    rw [List.getLast?_append_of_ne_nil _ hback.ne_nil] at hc
    exact hback.last c hc

theorem isSolid_iff : IsSolid text ↔ text ≠ [] ∧ (text.head?.all fun c => !isBlank c) = true ∧
    (text.getLast?.all fun c => !isBlank c) = true := by
  have hall (end? : Option Char) : (end?.all fun c => !isBlank c) = true ↔
      ∀ c ∈ end?, isBlank c = false := by
    cases end? <;> simp
  rw [hall, hall]
  exact ⟨fun h => ⟨h.ne_nil, h.head, h.last⟩, fun ⟨hne, hhead, hlast⟩ => ⟨hne, hhead, hlast⟩⟩

instance (text : List Char) : Decidable (IsSolid text) := decidable_of_iff _ isSolid_iff.symm

theorem rdropWhile_append_of_areBlank (text : List Char) (h : AreBlank back) :
    (text ++ back).rdropWhile isBlank = text.rdropWhile isBlank := by
  induction back using List.reverseRecOn with
  | nil => rw [List.append_nil]
  | append_singleton back c ih =>
    obtain ⟨hback, hc⟩ := List.forall_mem_append.mp h
    rw [← List.append_assoc, List.rdropWhile_concat_pos _ _ _ (hc c (List.mem_singleton_self c)),
      ih hback]

/-- **Trimming takes off the blanks around a solid text.** -/
theorem trim_padded (hfront : AreBlank front) (hcore : IsSolid core) (hback : AreBlank back) :
    trim (front ++ core ++ back) = core := by
  obtain ⟨c, more, rfl⟩ := List.exists_cons_of_ne_nil hcore.ne_nil
  have hc : ¬ isBlank c = true := Bool.not_eq_true _ ▸ hcore.head c rfl
  have hself := trim_eq_self hcore.head hcore.last
  rw [trim_eq_rdropWhile, List.dropWhile_cons_of_neg hc] at hself
  rw [trim_eq_rdropWhile, List.append_assoc, List.dropWhile_append_of_pos hfront,
    List.cons_append, List.dropWhile_cons_of_neg hc, ← List.cons_append,
    rdropWhile_append_of_areBlank (c :: more) hback, hself]

/-- A text is what is trimmed of it, with blanks around. -/
theorem exists_padded (text : List Char) :
    ∃ front back, text = front ++ trim text ++ back ∧ AreBlank front ∧ AreBlank back := by
  refine ⟨text.takeWhile isBlank, (text.dropWhile isBlank).rtakeWhile isBlank, ?_, ?_, ?_⟩
  · rw [trim_eq_rdropWhile, List.append_assoc, List.rdropWhile_append_rtakeWhile,
      List.takeWhile_append_dropWhile]
  · exact fun c hc => List.mem_takeWhile_imp hc
  · exact fun c hc => List.mem_rtakeWhile_imp hc

/-! ## Whole lines -/

/-- Whether a stretch of a text is made of whole lines: in front of it the text
begins or a line feed stands, and behind it the text ends or a line feed
stands. -/
def WholeLines (text stretch : List Char) : Prop :=
  ∃ front back, text = front ++ stretch ++ back ∧
    front.getLast?.all (· == '\n') = true ∧ back.head?.all (· == '\n') = true

theorem all_getLast?_iff : front.getLast?.all (· == '\n') = true ↔
    front = [] ∨ ∃ before, front = before ++ ['\n'] := by
  rcases List.eq_nil_or_concat front with rfl | ⟨before, c, rfl⟩
  · simp
  · simp

theorem all_head?_iff : back.head?.all (· == '\n') = true ↔
    back = [] ∨ ∃ behind, back = '\n' :: behind := by
  cases back <;> simp

theorem wholeLines_intercalate (before behind : List (List Char)) (line : List Char) :
    WholeLines (['\n'].intercalate (before ++ line :: behind)) line := by
  induction before with
  | nil =>
    cases behind with
    | nil => exact ⟨[], [], by simp, rfl, rfl⟩
    | cons next more =>
      refine ⟨[], '\n' :: ['\n'].intercalate (next :: more), ?_, rfl, rfl⟩
      rw [List.nil_append, List.intercalate_cons_of_ne_nil (List.cons_ne_nil _ _)]
      simp
  | cons first before ih =>
    obtain ⟨front, back, htext, hfront, hback⟩ := ih
    refine ⟨first ++ '\n' :: front, back, ?_, ?_, hback⟩
    · rw [List.cons_append, List.intercalate_cons_of_ne_nil (by simp), htext]
      simp
    · rcases all_getLast?_iff.mp hfront with rfl | ⟨before, rfl⟩
      · rw [List.getLast?_append_cons]
        rfl
      · rw [← List.cons_append, ← List.append_assoc, List.getLast?_append_cons]
        rfl

/-- The lines of whole lines are lines of the text. -/
theorem pieces_subset_of_wholeLines (h : WholeLines text stretch) :
    pieces (· == '\n') stretch ⊆ pieces (· == '\n') text := by
  obtain ⟨front, back, rfl, hfront, hback⟩ := h
  have hbehind : pieces (· == '\n') stretch ⊆ pieces (· == '\n') (stretch ++ back) := by
    rcases all_head?_iff.mp hback with rfl | ⟨behind, rfl⟩
    · rw [List.append_nil]
      exact List.Subset.refl _
    · have hcut := @pieces_append (· == '\n') stretch behind '\n' (beq_self_eq_true '\n')
      rw [hcut]
      exact List.subset_append_left _ _
  rw [List.append_assoc]
  rcases all_getLast?_iff.mp hfront with rfl | ⟨before, rfl⟩
  · exact hbehind
  · have hcut := @pieces_append (· == '\n') before (stretch ++ back) '\n' (beq_self_eq_true '\n')
    rw [List.append_assoc, List.singleton_append, hcut]
    exact fun line hline => List.mem_append_right _ (hbehind hline)

/-- **The lines of a text** are the whole lines that hold no line feed. -/
theorem mem_pieces_iff : line ∈ pieces (· == '\n') text ↔ WholeLines text line ∧ '\n' ∉ line := by
  constructor
  · intro hline
    refine ⟨?_, fun hmem => ?_⟩
    · obtain ⟨before, behind, hpieces⟩ := List.append_of_mem hline
      have hjoined := intercalate_pieces '\n' text
      rw [hpieces] at hjoined
      exact hjoined ▸ wholeLines_intercalate before behind line
    · have hnot := not_isSep_of_mem_pieces hline '\n' hmem
      cases hnot
  · rintro ⟨hwhole, hfree⟩
    have hone : pieces (· == '\n') line = [line] :=
      pieces_of_forall fun c hc => beq_eq_false_iff_ne.mpr fun heq => hfree (heq ▸ hc)
    exact pieces_subset_of_wholeLines hwhole (hone ▸ List.mem_singleton_self line)

theorem all_getLast?_rdropWhile (text : List Char) :
    (text.rdropWhile (· != '\n')).getLast?.all (· == '\n') = true := by
  cases hlast : (text.rdropWhile (· != '\n')).getLast? with
  | none => rfl
  | some c =>
    have hne : text.rdropWhile (· != '\n') ≠ [] := fun hnil => by
      rw [hnil] at hlast
      cases hlast
    have hstop := List.rdropWhile_last_not _ _ hne
    obtain rfl := Option.some.inj ((List.getLast?_eq_some_getLast hne).symm.trans hlast)
    simpa using hstop

theorem all_head?_dropWhile (text : List Char) :
    (text.dropWhile (· != '\n')).head?.all (· == '\n') = true := by
  have hstop := List.head?_dropWhile_not (· != '\n') text
  cases hhead : (text.dropWhile (· != '\n')).head? with
  | none => rfl
  | some c =>
    rw [hhead] at hstop
    simpa using hstop

/-- **What holds no line feed lies in one line**, which goes from the last feed
before it to the first behind it. -/
theorem exists_line_around (hfree : '\n' ∉ core) (front back : List Char) :
    ∃ before behind, before <:+ front ∧ behind = back.takeWhile (· != '\n') ∧
      before ++ core ++ behind ∈ pieces (· == '\n') (front ++ core ++ back) := by
  have hfront : front.rdropWhile (· != '\n') ++ front.rtakeWhile (· != '\n') = front :=
    List.rdropWhile_append_rtakeWhile
  have hback : back.takeWhile (· != '\n') ++ back.dropWhile (· != '\n') = back :=
    List.takeWhile_append_dropWhile
  refine ⟨front.rtakeWhile (· != '\n'), back.takeWhile (· != '\n'), List.rtakeWhile_suffix _ _,
    rfl, mem_pieces_iff.mpr ⟨⟨front.rdropWhile (· != '\n'), back.dropWhile (· != '\n'), ?_,
      all_getLast?_rdropWhile front, all_head?_dropWhile back⟩, fun hmem => ?_⟩⟩
  · calc front ++ core ++ back
        = front.rdropWhile (· != '\n') ++ front.rtakeWhile (· != '\n') ++ core ++
            (back.takeWhile (· != '\n') ++ back.dropWhile (· != '\n')) := by rw [hfront, hback]
      _ = _ := by simp only [List.append_assoc]
  · rcases List.mem_append.mp hmem with hmem | hmem
    · rcases List.mem_append.mp hmem with hmem | hmem
      · exact absurd (List.mem_rtakeWhile_imp hmem) (by decide)
      · exact hfree hmem
    · exact absurd (List.mem_takeWhile_imp hmem) (by decide)

end Text

end DocCoverage
