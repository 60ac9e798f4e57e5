import DocCoverage.Proofs.Pattern.Parts
import DocCoverage.Proofs.Source.Growth
import DocCoverage.Proofs.Text.Stretches
/-!
# Sources — exported functions that hide others

The matches of a form do not overlap, so one that begins early can hide another
one that begins inside it. It begins there with the word `export`, and there are
two places for that word: the end of a name, which only a declared function has
nothing behind, and the stated type of an arrow function, which goes on over any
number of lines up to an equals sign.
-/

namespace DocCoverage

namespace Signals

open Pattern
open Text (AreBlank isBlank)

/-! ## The forms -/

/-- A declared function. -/
def declaredFunction : Declaration :=
  ⟨inOrder [announced ["export"], maybeAsync, announced ["function"]], empty⟩

/-- An arrow function. -/
def arrowFunction : Declaration := ⟨announced ["export", "const"], seq maybeBlanks arrow⟩

/-- An arrow function of a stated type. -/
def typedFunction : Declaration :=
  ⟨announced ["export", "const"],
    inOrder [maybeBlanks, exactly ":", maybeBlanks, many (.anyBut '='), arrow]⟩

theorem functionForms_eq : functionForms = [declaredFunction, arrowFunction, typedFunction] := rfl

variable {d d' : Declaration} {c c' : Cursor} {p : Pattern} {passed : Option Char} {word : String}
  {text stretch lead name tail back lead' name' tail' back' : List Char} {mark : Char} {i j e : ℕ}

theorem mem_functionForms :
    d ∈ functionForms ↔ d = declaredFunction ∨ d = arrowFunction ∨ d = typedFunction := by
  rw [functionForms_eq]
  simp only [List.mem_cons, List.not_mem_nil, or_false]

theorem describes_announced : (announced [word]).Describes passed stretch back ↔
    ∃ gap, stretch = word.toList ++ gap ∧ gap ≠ [] ∧ AreBlank gap := by
  constructor
  · rintro ⟨_, gap, rfl, hword, hgap⟩
    obtain rfl := describes_exactly.mp hword
    obtain ⟨hne, hblank⟩ := describes_atLeastOne.mp hgap
    exact ⟨gap, rfl, hne, hblank⟩
  · rintro ⟨gap, rfl, hne, hblank⟩
    exact ⟨word.toList, gap, rfl, describes_exactly.mpr rfl, describes_atLeastOne.mpr ⟨hne, hblank⟩⟩

/-- Whether a form begins with the word `export` and has no other letter of its
first in front of the name. -/
def LeadsWithExport (d : Declaration) : Prop :=
  ∃ p, d.lead = seq (announced ["export"]) p ∧ p.refuses 'e' = true

theorem leadsWithExport_of_mem (h : d ∈ functionForms) : LeadsWithExport d := by
  rcases mem_functionForms.mp h with rfl | rfl | rfl <;> exact ⟨_, rfl, by decide⟩

/-- What such a form leads with. -/
theorem exists_export (hd : LeadsWithExport d) (h : d.Parts c lead name tail back) :
    ∃ x rest, lead = "export".toList ++ x :: rest ∧ isBlank x = true ∧ 'e' ∉ x :: rest := by
  obtain ⟨p, hp, hrefuses⟩ := hd
  have hlead := h.describes_lead
  rw [hp] at hlead
  obtain ⟨_, rest, rfl, hexport, hrest⟩ := hlead
  obtain ⟨gap, rfl, hne, hblank⟩ := describes_announced.mp hexport
  obtain ⟨x, more, rfl⟩ := List.exists_cons_of_ne_nil hne
  refine ⟨x, more ++ rest, by rw [List.append_assoc, List.cons_append],
    hblank x (List.mem_cons_self ..), ?_⟩
  rw [← List.cons_append]
  refine List.not_mem_append (fun hmem => ?_) (not_mem_of_refuses hrefuses hrest)
  exact absurd (hblank 'e' hmem) (by decide)

/-- The first letter of `export` is not in its lead again. -/
theorem exists_lead (hd : LeadsWithExport d) (h : d.Parts c lead name tail back) :
    ∃ rest, lead = 'e' :: rest ∧ 'e' ∉ rest := by
  obtain ⟨x, rest, rfl, -, hfree⟩ := exists_export hd h
  exact ⟨"xport".toList ++ x :: rest, rfl, List.not_mem_append (by decide) hfree⟩

/-- **Where a match begins inside another one**: at the end of its name, or in
its tail. -/
theorem overlap (hd : LeadsWithExport d) (hj : d.Parts (Cursor.place text j) lead name tail back)
    (hi : (d.matchAt? text i).isSome = true) (hlt : j < i)
    (hinto : i < j + (lead ++ (name ++ tail)).length) :
    (∃ before, name = before ++ "export".toList ∧
      text.drop i = "export".toList ++ (tail ++ back) ∧ i = j + (lead ++ before).length) ∨
    ∃ before more, tail = before ++ 'e' :: more ∧
      (text.drop j).take (i - j) = lead ++ (name ++ before) := by
  obtain ⟨lead', name', tail', back', hparts⟩ := Declaration.isSome_matchAt?_iff.mp hi
  obtain ⟨x, rest, rfl, hblank, -⟩ := exists_export hd hparts
  obtain ⟨rest', hlead, hfree⟩ := exists_lead hd hj
  have hexport : text.drop i = "export".toList ++ (x :: rest ++ (name' ++ (tail' ++ back'))) := by
    rw [← List.append_assoc]
    exact hparts.ahead_eq
  have hahead := Declaration.ahead_place text (Nat.le_of_lt hlt)
  have hlength : ((text.drop j).take (i - j)).length = i - j :=
    Declaration.length_between (Nat.le_of_lt (Declaration.lt_length_of_isSome hi))
  have hinside : ((text.drop j).take (i - j)).length < (lead ++ (name ++ tail)).length := by omega
  rcases hj.within hahead hinside with ⟨more, hne, hmore, hprefix⟩ |
      ⟨before, more, -, hfront, rfl, hrest⟩ | ⟨before, more, hne, hfront, rfl, hprefix⟩
  · -- no part of the lead behind its first letter begins with that letter
    obtain ⟨first, more, rfl⟩ := List.exists_cons_of_ne_nil hne
    rw [hexport] at hprefix
    obtain ⟨rfl, -⟩ := List.cons_prefix_cons.mp hprefix
    obtain ⟨z, front, hfront⟩ := List.exists_cons_of_length_pos
      (l := (text.drop j).take (i - j)) (by omega)
    rw [hfront, hlead] at hmore
    have hmem : 'e' ∈ rest' :=
      (List.cons_eq_cons.mp hmore).2 ▸ List.mem_append_right _ (List.mem_cons_self ..)
    exact absurd hmem hfree
  · -- the part of the name that lies behind the place is the word that stands there
    have hword : ∀ x ∈ more, Text.isWordChar x = true :=
      fun x hx => hj.isWord x (List.mem_append_right _ hx)
    have hstop : (x :: rest ++ (name' ++ (tail' ++ back'))).head?.any Text.isWordChar = false :=
      Text.not_isWordChar_of_isBlank hblank
    have hletters : ∀ x ∈ "export".toList, Text.isWordChar x = true :=
      List.all_eq_true.mp (by decide)
    obtain ⟨rfl, hbehind⟩ := Text.eq_of_run_append hword hletters hj.isWhole hstop
      (hrest.symm.trans hexport)
    exact .inl ⟨before, rfl, hrest, by rw [← hfront, hlength]; omega⟩
  · obtain ⟨first, more, rfl⟩ := List.exists_cons_of_ne_nil hne
    rw [hexport] at hprefix
    obtain ⟨rfl, -⟩ := List.cons_prefix_cons.mp hprefix
    exact .inr ⟨before, more, rfl, hfront⟩

/-! ## Forms of a constant -/

theorem describes_const : (announced ["export", "const"]).Describes passed stretch back ↔
    ∃ gap gap', stretch = "export".toList ++ (gap ++ ("const".toList ++ gap')) ∧
      (gap ≠ [] ∧ AreBlank gap) ∧ gap' ≠ [] ∧ AreBlank gap' := by
  constructor
  · rintro ⟨_, _, rfl, hexport, hconst⟩
    obtain ⟨gap, rfl, hgap⟩ := describes_announced.mp hexport
    obtain ⟨gap', rfl, hgap'⟩ := describes_announced.mp hconst
    exact ⟨gap, gap', List.append_assoc _ _ _, hgap, hgap'⟩
  · rintro ⟨gap, gap', rfl, hgap, hgap'⟩
    exact ⟨"export".toList ++ gap, "const".toList ++ gap', (List.append_assoc _ _ _).symm,
      describes_announced.mpr ⟨gap, rfl, hgap⟩, describes_announced.mpr ⟨gap', rfl, hgap'⟩⟩

/-- The lead of a constant and its name are those that are ahead. -/
theorem eq_of_parts_const (hd : d.lead = announced ["export", "const"])
    (hd' : d'.lead = announced ["export", "const"]) (h : d.Parts c lead name tail back)
    (h' : d'.Parts c' lead' name' tail' back') (hahead : c.ahead = c'.ahead) :
    lead = lead' ∧ name = name' ∧ tail ++ back = tail' ++ back' := by
  have hlead := h.describes_lead
  have hlead' := h'.describes_lead
  rw [hd] at hlead
  rw [hd'] at hlead'
  obtain ⟨gap, gap₂, rfl, ⟨-, hgap⟩, -, hgap₂⟩ := describes_const.mp hlead
  obtain ⟨gap', gap₂', rfl, ⟨-, hgap'⟩, -, hgap₂'⟩ := describes_const.mp hlead'
  have hsame := h.ahead_eq.symm.trans (hahead.trans h'.ahead_eq)
  simp only [List.append_assoc] at hsame
  obtain ⟨rfl, hconst⟩ := Text.eq_of_run_append hgap hgap' rfl rfl (List.append_cancel_left hsame)
  obtain ⟨rfl, hname⟩ := Text.eq_of_run_append hgap₂ hgap₂' (h.head?_not_blank _)
    (h'.head?_not_blank _) (List.append_cancel_left hconst)
  exact ⟨rfl, Text.eq_of_run_append h.isWord h'.isWord h.isWhole h'.isWhole hname⟩

/-- In front of a name the word `export` of another match of the form is
not. -/
theorem ne_export_of_mark (hlead : d.lead = announced ["export", "const"])
    (htail : d.tail = seq maybeBlanks (seq (one (.exactly mark)) p)) (hmark : isBlank mark = false)
    (hne : mark ≠ 'c') (hj : d.Parts c lead name tail back)
    (hi : (d.matchAt? text i).isSome = true) : text.drop i ≠ "export".toList ++ (tail ++ back) := by
  intro hexport
  obtain ⟨lead', name', tail', back', hparts⟩ := Declaration.isSome_matchAt?_iff.mp hi
  have hlead' := hparts.describes_lead
  have htail' := hj.describes_tail
  rw [hlead] at hlead'
  rw [htail] at htail'
  obtain ⟨gap, gap₂, rfl, ⟨-, hgap⟩, -⟩ := describes_const.mp hlead'
  obtain ⟨blanks, _, rfl, hblanks, _, rest, rfl, ⟨x, rfl, hx⟩, -⟩ := htail'
  obtain rfl : x = mark := eq_of_beq hx
  have hblank : AreBlank blanks := hblanks
  have hstop : ([x] ++ rest ++ back).head?.any isBlank = false := hmark
  have hsame := hexport.symm.trans hparts.ahead_eq
  simp only [List.append_assoc] at hsame hstop
  obtain ⟨-, hconst⟩ := Text.eq_of_run_append hblank hgap hstop rfl (List.append_cancel_left hsame)
  exact hne (List.cons_eq_cons.mp hconst).1

/-- A match of a form of a constant that begins inside another one begins in its
tail. -/
theorem overlap_const (hlead : d.lead = announced ["export", "const"])
    (htail : d.tail = seq maybeBlanks (seq (one (.exactly mark)) p)) (hmark : isBlank mark = false)
    (hne : mark ≠ 'c') (hj : d.matchAt? text j = some (name, e))
    (hi : (d.matchAt? text i).isSome = true) (hlt : j < i) (hinto : i < e) :
    ∃ lead before more back, d.Parts (Cursor.place text j) lead name (before ++ 'e' :: more) back ∧
      (text.drop j).take (i - j) = lead ++ (name ++ before) := by
  obtain ⟨lead, tail, back, hparts, rfl⟩ := Declaration.exists_parts hj
  rcases overlap ⟨_, hlead, by decide⟩ hparts hi hlt hinto with
    ⟨-, -, hexport, -⟩ | ⟨before, more, rfl, hbetween⟩
  · exact absurd hexport (ne_export_of_mark hlead htail hmark hne hparts hi)
  · exact ⟨lead, before, more, back, hparts, hbetween⟩

/-! ## Which matches are kept -/

/-- **No arrow function hides another one.** -/
theorem end_le_of_arrow (hj : arrowFunction.matchAt? text j = some (name, e))
    (hi : (arrowFunction.matchAt? text i).isSome = true) (hlt : j < i) : e ≤ i := by
  by_contra hinto
  obtain ⟨lead, before, more, back, hparts, -⟩ :=
    overlap_const rfl rfl (by decide) (by decide) hj hi hlt (Nat.lt_of_not_le hinto)
  exact not_mem_of_refuses (by decide) hparts.describes_tail
    (List.mem_append_right before (List.mem_cons_self (a := 'e') ..))

/-- **An arrow function of a stated type hides another one** if no equals sign
stands between them. -/
theorem end_le_iff_of_typed (hj : typedFunction.matchAt? text j = some (name, e))
    (hi : (typedFunction.matchAt? text i).isSome = true) (hlt : j < i) :
    e ≤ i ↔ '=' ∈ (text.drop j).take (i - j) := by
  refine ⟨Declaration.mem_between_of_demands (by decide) hj, fun hmem => ?_⟩
  by_contra hinto
  obtain ⟨lead, before, more, back, hparts, hbetween⟩ :=
    overlap_const rfl rfl (by decide) (by decide) hj hi hlt (Nat.lt_of_not_le hinto)
  rw [hbetween] at hmem
  exact hparts.gate_not_mem (w := 'e') (by decide) (by decide) (by decide) (List.mem_cons_self ..)
    hmem

/-- **A declared function hides another one** whose word `export` it takes for
the end of its name. -/
theorem end_le_or_of_declared (hj : declaredFunction.matchAt? text j = some (name, e))
    (hi : (declaredFunction.matchAt? text i).isSome = true) (hlt : j < i) :
    e ≤ i ∨ ∃ before, name = before ++ "export".toList ∧ e = i + "export".length := by
  obtain ⟨lead, tail, back, hparts, rfl⟩ := Declaration.exists_parts hj
  obtain rfl : tail = [] := hparts.describes_tail
  rcases Nat.lt_or_ge i (j + (lead ++ (name ++ [])).length) with hinto | hbehind
  · rcases overlap (leadsWithExport_of_mem (by decide)) hparts hi hlt hinto with
      ⟨before, rfl, -, rfl⟩ | ⟨before, more, hnil, -⟩
    · refine .inr ⟨before, rfl, ?_⟩
      simp only [List.append_nil, List.length_append, String.length_toList, Nat.add_assoc]
    · exact absurd hnil (by simp)
  · exact .inl hbehind

theorem arrowFunction_kept_iff (text : List Char) (i : ℕ) :
    arrowFunction.Kept text i ↔ (arrowFunction.matchAt? text i).isSome = true := by
  rw [Declaration.kept_iff, and_iff_left_iff_imp]
  exact fun hi j hlt _ ⟨_, _⟩ hj => end_le_of_arrow hj hi hlt

theorem typedFunction_kept_iff (text : List Char) (i : ℕ) :
    typedFunction.Kept text i ↔ (typedFunction.matchAt? text i).isSome = true ∧
      ∀ j, j < i → (typedFunction.matchAt? text j).isSome = true →
        '=' ∈ (text.drop j).take (i - j) := by
  have hends {j i : ℕ} {m : List Char × ℕ} (hlt : j < i)
      (hj : typedFunction.matchAt? text j = some m)
      (hi : (typedFunction.matchAt? text i).isSome = true) :
      m.2 ≤ i ↔ '=' ∈ (text.drop j).take (i - j) := by
    obtain ⟨name, e⟩ := m
    exact end_le_iff_of_typed hj hi hlt
  rw [Declaration.kept_iff_of_trans fun k j i m m' hkj hji hk hj hi hinto hinto' => ?_]
  · refine and_congr_right fun hi => forall₂_congr fun j hlt =>
      ⟨fun hall hj => ?_, fun hsign m hj => ?_⟩
    · obtain ⟨m, hm⟩ := Option.isSome_iff_exists.mp hj
      exact (hends hlt hm hi).mp (hall m hm)
    · exact (hends hlt hj hi).mpr (hsign (by rw [hj]; rfl))
  · -- no sign on the way to the second match, and none from there to the third
    have hj' : (typedFunction.matchAt? text j).isSome = true := by rw [hj]; rfl
    have hfirst := mt (hends hkj hk hj').mpr (Nat.not_le_of_gt hinto)
    have hsecond := mt (hends hji hj hi).mpr (Nat.not_le_of_gt hinto')
    have hkeep := List.not_mem_append hfirst hsecond
    rw [← Declaration.between_append text (Nat.le_of_lt hkj) (Nat.le_of_lt hji)] at hkeep
    exact Nat.lt_of_not_le (mt (hends (Nat.lt_trans hkj hji) hk hi).mp hkeep)

theorem declaredFunction_kept_iff (text : List Char) (i : ℕ) :
    declaredFunction.Kept text i ↔ (declaredFunction.matchAt? text i).isSome = true ∧
      ∀ j before, j < i → declaredFunction.Kept text j →
        declaredFunction.matchAt? text j ≠
          some (before ++ "export".toList, i + "export".length) := by
  rw [Declaration.kept_iff]
  refine and_congr_right fun hi =>
    ⟨fun hkept j before hlt hj hm => ?_, fun hnone j hlt hj m hm => ?_⟩
  · have hle : i + "export".length ≤ i := hkept j hlt hj _ hm
    exact absurd hle (Nat.not_le_of_gt (Nat.lt_add_of_pos_right (by decide)))
  · obtain ⟨name, e⟩ := m
    rcases end_le_or_of_declared hm hi hlt with hle | ⟨before, rfl, rfl⟩
    · exact hle
    · exact absurd hm (hnone j before hlt hj)

end Signals

end DocCoverage
