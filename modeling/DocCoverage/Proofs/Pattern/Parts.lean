import DocCoverage.Proofs.Pattern.Describes
import DocCoverage.Proofs.Pattern.Growth
import DocCoverage.Proofs.Pattern.Matches
/-!
# Patterns — the parts of a match

A match of a declaration is a lead, a name and a tail, one behind the other, and
the name is a whole word (`Declaration.Parts`). There is a match where a text
goes on with such parts (`isSome_matchAt?_iff`). A place inside a match lies in
its lead, in its name or in its tail (`Parts.within`), and what a pattern refuses
is not to be found in the part that it describes.
-/

namespace DocCoverage

namespace Text

variable {run run' rest rest' : List Char} {p : Char → Bool}

/-- A run of characters that goes on no further is the only one. -/
theorem eq_of_run_append (hrun : ∀ x ∈ run, p x = true) (hrun' : ∀ x ∈ run', p x = true)
    (hrest : rest.head?.any p = false) (hrest' : rest'.head?.any p = false)
    (h : run ++ rest = run' ++ rest') : run = run' ∧ rest = rest' := by
  have hstop {rest : List Char} (hrest : rest.head?.any p = false) : rest.takeWhile p = [] := by
    cases rest with
    | nil => rfl
    | cons x more => exact List.takeWhile_cons_of_neg (by simpa using hrest)
  have htake := congrArg (List.takeWhile p) h
  rw [List.takeWhile_append_of_pos hrun, List.takeWhile_append_of_pos hrun', hstop hrest,
    hstop hrest', List.append_nil, List.append_nil] at htake
  subst htake
  exact ⟨rfl, List.append_cancel_left h⟩

/-- A text that is divided in two ways: the first division is behind the second,
or it is not. -/
theorem append_cases (h : run ++ rest = run' ++ rest') :
    (∃ more, more ≠ [] ∧ run = run' ++ more ∧ rest' = more ++ rest) ∨
      ∃ before, run' = run ++ before ∧ rest = before ++ rest' := by
  rcases List.append_eq_append_iff.mp h with hbefore | ⟨more, hrun, hrest⟩
  · exact .inr hbefore
  · rcases eq_or_ne more [] with rfl | hne
    · exact .inr ⟨[], by rw [hrun, List.append_nil, List.append_nil], hrest.symm⟩
    · exact .inl ⟨more, hne, hrun, hrest⟩

/-- What does not hold a character ends in front of it. -/
theorem exists_before {x : Char} (hx : x ∉ run) (h : run ++ rest = run' ++ x :: rest') :
    ∃ before, run' = run ++ before ∧ rest = before ++ x :: rest' := by
  rcases append_cases h with ⟨past, hne, hover, hrest⟩ | hbefore
  · obtain ⟨first, past, rfl⟩ := List.exists_cons_of_ne_nil hne
    obtain ⟨rfl, -⟩ := List.cons_eq_cons.mp hrest
    exact absurd (hover ▸ List.mem_append_right _ (List.mem_cons_self ..)) hx
  · exact hbefore

/-- No blank is a word character. -/
theorem not_isWordChar_of_isBlank {x : Char} (h : isBlank x = true) : isWordChar x = false := by
  have hcodes : ∀ n ∈ [9, 10, 11, 12, 13, 0x20, 0x85, 0xA0, 0x1680, 0x2000, 0x2001, 0x2002, 0x2003,
      0x2004, 0x2005, 0x2006, 0x2007, 0x2008, 0x2009, 0x200A, 0x2028, 0x2029, 0x202F, 0x205F,
      0x3000], isWordChar (Char.ofNat n) = false := by decide +kernel
  have hcode := hcodes x.toNat (by
    simp only [isBlank, Bool.or_eq_true, Bool.and_eq_true, decide_eq_true_eq, beq_iff_eq] at h
    simp only [List.mem_cons, List.not_mem_nil]
    omega)
  rwa [Char.ofNat_toNat] at hcode

end Text

/-! ## Characters of a stretch -/

namespace Pattern

variable {p : Pattern} {passed : Option Char} {stretch back : List Char} {w gate : Char}

/-- **What a pattern refuses** is in no stretch that it describes. -/
theorem not_mem_of_refuses (h : p.refuses w = true) (hd : p.Describes passed stretch back) :
    w ∉ stretch := by
  induction p generalizing passed stretch back with
  | empty =>
    obtain rfl := hd
    exact List.not_mem_nil
  | one g =>
    obtain ⟨x, rfl, hx⟩ := hd
    intro hmem
    obtain rfl := List.mem_singleton.mp hmem
    simp [refuses, hx] at h
  | many g =>
    intro hmem
    simp [refuses, hd w hmem] at h
  | wordEdge | lineStart | lineEnd =>
    obtain ⟨rfl, -⟩ := hd
    exact List.not_mem_nil
  | seq p q ihp ihq =>
    obtain ⟨hp, hq⟩ := (Bool.and_eq_true _ _).mp h
    obtain ⟨first, second, rfl, hfirst, hsecond⟩ := hd
    exact List.not_mem_append (ihp hp hfirst) (ihq hq hsecond)
  | alt p q ihp ihq =>
    obtain ⟨hp, hq⟩ := (Bool.and_eq_true _ _).mp h
    rcases hd with hd | hd
    · exact ihp hp hd
    · exact ihq hq hd

/-- What a pattern demands is in every stretch that it describes. -/
theorem mem_of_describes (h : p.demands gate = true) (hd : p.Describes passed stretch back) :
    gate ∈ stretch := by
  induction p generalizing passed stretch back with
  | one g =>
    obtain rfl : g = .exactly gate := by simpa [demands] using h
    obtain ⟨x, rfl, hx⟩ := hd
    exact List.mem_singleton.mpr (eq_of_beq hx).symm
  | seq p q ihp ihq =>
    obtain ⟨first, second, rfl, hfirst, hsecond⟩ := hd
    rw [demands, Bool.or_eq_true] at h
    rcases h with h | h
    · exact List.mem_append_left _ (ihp h hfirst)
    · exact List.mem_append_right _ (ihq h hsecond)
  | alt p q ihp ihq =>
    obtain ⟨hp, hq⟩ := (Bool.and_eq_true _ _).mp h
    rcases hd with hd | hd
    · exact ihp hp hd
    · exact ihq hq hd
  | empty | many | wordEdge | lineStart | lineEnd => cases h

/-- A gate parts the stretches that a pattern describes: the gate is not in the
first part, and what is refused behind the gate is not in the second. -/
theorem exists_parted (h : p.isGated gate w = true) (hd : p.Describes passed stretch back) :
    ∃ first second, stretch = first ++ second ∧ gate ∉ first ∧ w ∉ second := by
  induction p generalizing passed stretch back with
  | seq p q ihp ihq =>
    rw [isGated, Bool.or_eq_true] at h
    rcases h with h | h
    · obtain ⟨hp, hq⟩ := (Bool.and_eq_true _ _).mp h
      obtain ⟨first, second, rfl, hfirst, hsecond⟩ := hd
      obtain ⟨front, behind, rfl, hfront, hbehind⟩ := ihq hq hsecond
      exact ⟨first ++ front, behind, (List.append_assoc _ _ _).symm,
        List.not_mem_append (not_mem_of_refuses hp hfirst) hfront, hbehind⟩
    · have hrefuses : (seq p q).refuses w = true := h
      exact ⟨[], stretch, rfl, List.not_mem_nil, not_mem_of_refuses hrefuses hd⟩
  | empty | one | many | wordEdge | lineStart | lineEnd | alt =>
    exact ⟨[], stretch, rfl, List.not_mem_nil, not_mem_of_refuses h hd⟩

end Pattern

/-! ## Parts -/

namespace Declaration

variable {d : Declaration} {c finish : Cursor} {text name lead tail back front rest : List Char}
  {i e : ℕ} {gate w : Char}

/-- The parts of a match that begins at a place: what is ahead there is a lead,
a name that is a whole word, a tail, and the text behind the match. -/
structure Parts (d : Declaration) (c : Cursor) (lead name tail back : List Char) : Prop where
  ahead_eq : c.ahead = lead ++ (name ++ (tail ++ back))
  describes_lead : d.lead.Describes c.passed lead (name ++ (tail ++ back))
  name_ne_nil : name ≠ []
  isWord : ∀ x ∈ name, Text.isWordChar x = true
  isWhole : (tail ++ back).head?.any Text.isWordChar = false
  describes_tail : d.tail.Describes name.getLast? tail back

theorem name?_eq_some_iff : name? c = some (name, finish) ↔
    c.ahead = name ++ finish.ahead ∧ name ≠ [] ∧ (∀ x ∈ name, Text.isWordChar x = true) ∧
      finish.ahead.head?.any Text.isWordChar = false ∧ finish.passed = name.getLast? := by
  have hsplit := List.takeWhile_append_dropWhile (p := Text.isWordChar) (l := c.ahead)
  have hword : ∀ x ∈ c.ahead.takeWhile Text.isWordChar, Text.isWordChar x = true :=
    fun x hx => List.mem_takeWhile_imp hx
  have hstop : (c.ahead.dropWhile Text.isWordChar).head?.any Text.isWordChar = false := by
    have hnot := List.head?_dropWhile_not Text.isWordChar c.ahead
    cases hhead : (c.ahead.dropWhile Text.isWordChar).head? with
    | none => rfl
    | some x => rwa [hhead] at hnot
  have hname : name? c = some (name, finish) ↔ c.ahead.takeWhile Text.isWordChar = name ∧
      name ≠ [] ∧ finish = ⟨name.getLast?, c.ahead.dropWhile Text.isWordChar⟩ := by
    unfold name?
    split
    next htake =>
      rw [htake]
      exact iff_of_false nofun fun ⟨hnil, hne, _⟩ => hne hnil.symm
    next x more htake =>
      rw [htake, Option.some.injEq, Prod.mk.injEq]
      constructor
      · rintro ⟨rfl, rfl⟩
        exact ⟨rfl, List.cons_ne_nil _ _, rfl⟩
      · rintro ⟨rfl, -, rfl⟩
        exact ⟨rfl, rfl⟩
  rw [hname]
  constructor
  · rintro ⟨rfl, hne, rfl⟩
    exact ⟨hsplit.symm, hne, hword, hstop, rfl⟩
  · rintro ⟨hahead, hne, hname, hrest, hpassed⟩
    obtain ⟨htake, hdrop⟩ := Text.eq_of_run_append hword hname hstop hrest (hsplit.trans hahead)
    exact ⟨htake, hne, by rw [← hpassed, hdrop]⟩

/-- **A declaration can end behind its parts**, and nowhere else. -/
theorem mem_ends_iff : (name, finish) ∈ d.ends c ↔
    ∃ lead tail, d.Parts c lead name tail finish.ahead ∧
      finish.passed = tail.getLast?.or name.getLast? := by
  constructor
  · intro h
    obtain ⟨behind, hbehind, hm⟩ := List.mem_flatMap.mp h
    obtain ⟨named, hnamed, hend⟩ := List.mem_flatMap.mp hm
    obtain ⟨e, he, heq⟩ := List.mem_map.mp hend
    obtain ⟨rfl, rfl⟩ := Prod.mk.inj heq
    obtain ⟨lead, hlead, hdlead⟩ := Pattern.mem_ends_iff.mp hbehind
    obtain ⟨hname, hne, hword, hwhole, hpassed⟩ := name?_eq_some_iff.mp (Option.mem_toList.mp hnamed)
    obtain ⟨tail, htail, hdtail⟩ := Pattern.mem_ends_iff.mp he
    rw [hname, htail.1] at hdlead
    rw [htail.1] at hwhole
    rw [hpassed] at hdtail
    exact ⟨lead, tail, ⟨by rw [hlead.1, hname, htail.1], hdlead, hne, hword, hwhole, hdtail⟩,
      by rw [htail.2, hpassed]⟩
  · rintro ⟨lead, tail, h, hpassed⟩
    refine List.mem_flatMap.mpr ⟨⟨lead.getLast?.or c.passed, name ++ (tail ++ finish.ahead)⟩,
      Pattern.mem_ends_iff.mpr ⟨lead, ⟨h.ahead_eq, rfl⟩, h.describes_lead⟩, ?_⟩
    refine List.mem_flatMap.mpr ⟨(name, ⟨name.getLast?, tail ++ finish.ahead⟩),
      Option.mem_toList.mpr (name?_eq_some_iff.mpr ⟨rfl, h.name_ne_nil, h.isWord, h.isWhole, rfl⟩),
      List.mem_map_of_mem (Pattern.mem_ends_iff.mpr ⟨tail, ⟨rfl, hpassed⟩, h.describes_tail⟩)⟩

/-- The parts of a match, and how long they are. -/
theorem exists_parts (h : d.matchAt? text i = some (name, e)) :
    ∃ lead tail back, d.Parts (Cursor.place text i) lead name tail back ∧
      e = i + (lead ++ (name ++ tail)).length := by
  obtain ⟨finish, hhead, rfl⟩ := matchAt?_eq_some_iff.mp h
  obtain ⟨lead, tail, hparts, -⟩ := mem_ends_iff.mp (List.mem_of_head? hhead)
  have hlength := congrArg List.length hparts.ahead_eq
  have hplace : (Cursor.place text i).ahead.length = text.length - i := List.length_drop
  have hname := List.length_pos_of_ne_nil hparts.name_ne_nil
  simp only [List.length_append] at hlength ⊢
  exact ⟨lead, tail, finish.ahead, hparts, by omega⟩

/-- **There is a match where the parts of one are ahead.** -/
theorem isSome_matchAt?_iff : (d.matchAt? text i).isSome = true ↔
    ∃ lead name tail back, d.Parts (Cursor.place text i) lead name tail back := by
  constructor
  · intro h
    obtain ⟨⟨name, e⟩, hm⟩ := Option.isSome_iff_exists.mp h
    obtain ⟨lead, tail, back, hparts, -⟩ := exists_parts hm
    exact ⟨lead, name, tail, back, hparts⟩
  · rintro ⟨lead, name, tail, back, hparts⟩
    have hmem : (name, Cursor.mk (tail.getLast?.or name.getLast?) back) ∈
        d.ends (Cursor.place text i) := mem_ends_iff.mpr ⟨lead, tail, hparts, rfl⟩
    rw [matchAt?, Option.isSome_map, List.isSome_head?]
    simpa using List.ne_nil_of_mem hmem

namespace Parts

/-- **Where a place inside a match lies**: in the lead, in the name or in the
tail. -/
theorem within (h : d.Parts c lead name tail back) (hc : c.ahead = front ++ rest)
    (hlt : front.length < (lead ++ (name ++ tail)).length) :
    (∃ more, more ≠ [] ∧ lead = front ++ more ∧ more <+: rest) ∨
      (∃ before more, more ≠ [] ∧ front = lead ++ before ∧ name = before ++ more ∧
        rest = more ++ (tail ++ back)) ∨
      ∃ before more, more ≠ [] ∧ front = lead ++ (name ++ before) ∧ tail = before ++ more ∧
        more <+: rest := by
  rcases Text.append_cases (h.ahead_eq.symm.trans hc) with ⟨more, hne, rfl, rfl⟩ | ⟨_, rfl, hname⟩
  · exact .inl ⟨more, hne, rfl, List.prefix_append _ _⟩
  rcases Text.append_cases hname with ⟨more, hne, rfl, rfl⟩ | ⟨_, rfl, htail⟩
  · exact .inr (.inl ⟨_, more, hne, rfl, rfl, rfl⟩)
  rcases Text.append_cases htail with ⟨more, hne, rfl, rfl⟩ | ⟨past, rfl, -⟩
  · exact .inr (.inr ⟨_, more, hne, rfl, rfl, List.prefix_append _ _⟩)
  · simp only [List.length_append] at hlt
    omega

/-- A name does not begin with a blank. -/
theorem head?_not_blank (h : d.Parts c lead name tail back) (more : List Char) :
    (name ++ more).head?.any Text.isBlank = false := by
  obtain ⟨x, rest, rfl⟩ := List.exists_cons_of_ne_nil h.name_ne_nil
  have hword := h.isWord x (List.mem_cons_self ..)
  refine Bool.eq_false_iff.mpr fun hblank => ?_
  rw [Text.not_isWordChar_of_isBlank hblank] at hword
  cases hword

theorem not_mem_name (h : d.Parts c lead name tail back) (hw : Text.isWordChar w = false) :
    w ∉ name := by
  intro hmem
  rw [h.isWord w hmem] at hw
  cases hw

/-- What no match has to pass before a gate is not in front of a place that only
lies behind the gate. -/
theorem gate_not_mem {before more : List Char} (h : d.Parts c lead name (before ++ more) back)
    (hword : Text.isWordChar gate = false) (hlead : d.lead.refuses gate = true)
    (htail : d.tail.isGated gate w = true) (hw : w ∈ more) : gate ∉ lead ++ (name ++ before) := by
  refine List.not_mem_append (Pattern.not_mem_of_refuses hlead h.describes_lead)
    (List.not_mem_append (h.not_mem_name hword) fun hmem => ?_)
  obtain ⟨first, second, hparted, hfirst, hsecond⟩ := Pattern.exists_parted htail h.describes_tail
  rcases Text.append_cases hparted with ⟨past, -, rfl, rfl⟩ | ⟨behind, rfl, -⟩
  · exact hsecond (List.mem_append_right _ hw)
  · exact hfirst (List.mem_append_left _ hmem)

end Parts

/-! ## Places behind a match -/

/-- What is ahead at a place is what lies before a later one, and then what is
ahead there. -/
theorem ahead_place {j : ℕ} (text : List Char) (hle : j ≤ i) :
    (Cursor.place text j).ahead = (text.drop j).take (i - j) ++ text.drop i := by
  have hdrop : text.drop i = (text.drop j).drop (i - j) := by
    rw [List.drop_drop, Nat.add_sub_cancel' hle]
  rw [hdrop, List.take_append_drop]
  rfl

theorem length_between {j : ℕ} (hi : i ≤ text.length) :
    ((text.drop j).take (i - j)).length = i - j := by
  rw [List.length_take, List.length_drop]
  exact Nat.min_eq_left (Nat.sub_le_sub_right hi j)

theorem between_append {j k : ℕ} (text : List Char) (hkj : k ≤ j) (hji : j ≤ i) :
    (text.drop k).take (i - k) = (text.drop k).take (j - k) ++ (text.drop j).take (i - j) := by
  have hwidth : i - k = (j - k) + (i - j) := by omega
  rw [hwidth, List.take_add, List.drop_drop, Nat.add_sub_cancel' hkj]

/-- A place behind a match lies behind what the match has to pass. -/
theorem mem_between_of_demands {j : ℕ} (hdemands : d.tail.demands gate = true)
    (h : d.matchAt? text j = some (name, e)) (hle : e ≤ i) :
    gate ∈ (text.drop j).take (i - j) := by
  obtain ⟨lead, tail, back, hparts, rfl⟩ := exists_parts h
  have hmem : gate ∈ lead ++ (name ++ tail) := List.mem_append_right _ (List.mem_append_right _
    (Pattern.mem_of_describes hdemands hparts.describes_tail))
  have hahead : text.drop j = (lead ++ (name ++ tail)) ++ back := by
    rw [List.append_assoc, List.append_assoc]
    exact hparts.ahead_eq
  rw [hahead, List.take_append, List.take_of_length_le (Nat.le_sub_of_add_le' hle)]
  exact List.mem_append_left _ hmem

end Declaration

end DocCoverage
