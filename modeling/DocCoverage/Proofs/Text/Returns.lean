import DocCoverage.Proofs.Text.Growth
import DocCoverage.Proofs.Text.Lines
/-!
# Text — line feeds with carriage returns

A text may end its lines with a line feed, or with a carriage return and a
line feed. `addReturns` goes from the one to the other by putting a carriage
return before every line feed, also before one that has another already. It
adds blanks beside blanks, so that the text has the words and the lines it
had, and trimming takes off what it took off before. What it changes is the
length.
-/

namespace DocCoverage

namespace Text

variable {text rest needle : List Char} {c : Char}

/-- The text with a carriage return put before every line feed. -/
def addReturns : List Char → List Char
  | [] => []
  | c :: rest => if c = '\n' then '\r' :: '\n' :: addReturns rest else c :: addReturns rest

/-- The string with a carriage return put before every line feed. -/
def withReturns (s : String) : String := String.ofList (addReturns s.toList)

@[simp] theorem toList_withReturns (s : String) : (withReturns s).toList = addReturns s.toList :=
  String.toList_ofList

@[simp] theorem addReturns_nil : addReturns [] = [] := rfl

@[simp] theorem addReturns_feed (rest : List Char) :
    addReturns ('\n' :: rest) = '\r' :: '\n' :: addReturns rest := by
  rw [addReturns, if_pos rfl]

theorem addReturns_cons (hc : c ≠ '\n') (rest : List Char) :
    addReturns (c :: rest) = c :: addReturns rest := by
  rw [addReturns, if_neg hc]

theorem addReturns_append (text more : List Char) :
    addReturns (text ++ more) = addReturns text ++ addReturns more := by
  induction text with
  | nil => rfl
  | cons c rest ih =>
    by_cases hc : c = '\n'
    · subst hc
      rw [List.cons_append, addReturns_feed, addReturns_feed, ih, List.cons_append,
        List.cons_append]
    · rw [List.cons_append, addReturns_cons hc, addReturns_cons hc, ih, List.cons_append]

/-- Every line feed counts twice. -/
theorem length_addReturns (text : List Char) :
    (addReturns text).length = text.length + text.count '\n' := by
  induction text with
  | nil => rfl
  | cons c rest ih =>
    by_cases hc : c = '\n'
    · subst hc
      rw [addReturns_feed, List.length_cons, List.length_cons, ih, List.length_cons,
        List.count_cons_self]
      omega
    · rw [addReturns_cons hc, List.length_cons, ih, List.length_cons, List.count_cons_of_ne hc]
      omega

/-! ## What begins a text -/

/-- What takes a carriage return for a line feed sees the same beginning. -/
theorem all_head?_addReturns {p : Char → Bool} (h : p '\r' = p '\n') (text : List Char) :
    (addReturns text).head?.all p = text.head?.all p := by
  cases text with
  | nil => rfl
  | cons c rest =>
    by_cases hc : c = '\n'
    · subst hc
      rw [addReturns_feed]
      exact h
    · rw [addReturns_cons hc]
      rfl

/-! ## Words and lines -/

/-- **The text has as many words.** -/
theorem wordCount_addReturns (text : List Char) : wordCount (addReturns text) = wordCount text := by
  induction text with
  | nil => rfl
  | cons c rest ih =>
    by_cases hc : c = '\n'
    · subst hc
      have hreturn : isBlank '\r' = true := by decide
      have hfeed : isBlank '\n' = true := by decide
      simp only [addReturns_feed, wordCount_cons, hreturn, hfeed, ih, Bool.not_true, Bool.false_and,
        Bool.false_eq_true, if_false, Nat.add_zero]
    · have hhead := all_head?_addReturns (p := isBlank) (by decide) rest
      rw [addReturns_cons hc, wordCount_cons, wordCount_cons, ih, hhead]

/-- **The text has as many lines.** -/
theorem lineCount_addReturns (text : List Char) : lineCount (addReturns text) = lineCount text := by
  induction text with
  | nil => rfl
  | cons c rest ih =>
    by_cases hc : c = '\n'
    · subst hc
      rw [addReturns_feed, lineCount_cons, if_neg (by decide), lineCount_cons, if_pos rfl,
        lineCount_cons, if_pos rfl, ih]
      omega
    · rw [addReturns_cons hc, lineCount_cons, if_neg hc, lineCount_cons, if_neg hc, ih]

/-! ## Looking for a text -/

section Needle

variable (hreturn : '\r' ∉ needle) (hfeed : '\n' ∉ needle)
include hreturn hfeed

theorem isPrefixOf_addReturns (text : List Char) :
    needle.isPrefixOf (addReturns text) = needle.isPrefixOf text := by
  induction needle generalizing text with
  | nil => rw [List.isPrefixOf_nil_left, List.isPrefixOf_nil_left]
  | cons n more ih =>
    obtain ⟨hn, hmore⟩ := List.ne_and_not_mem_of_not_mem_cons hreturn
    obtain ⟨hn', hmore'⟩ := List.ne_and_not_mem_of_not_mem_cons hfeed
    cases text with
    | nil => rfl
    | cons c rest =>
      by_cases hc : c = '\n'
      · subst hc
        rw [addReturns_feed, List.isPrefixOf_cons_cons, List.isPrefixOf_cons_cons,
          beq_eq_false_iff_ne.mpr hn.symm, beq_eq_false_iff_ne.mpr hn'.symm, Bool.false_and,
          Bool.false_and]
      · rw [addReturns_cons hc, List.isPrefixOf_cons_cons, List.isPrefixOf_cons_cons,
          ih hmore hmore']

/-- **A text that lies within a line occurs where it occurred.** -/
theorem occursIn_addReturns (hne : needle ≠ []) (text : List Char) :
    occursIn needle (addReturns text) = occursIn needle text := by
  induction text with
  | nil => rfl
  | cons c rest ih =>
    have hhere := isPrefixOf_addReturns hreturn hfeed (c :: rest)
    by_cases hc : c = '\n'
    · subst hc
      -- between the return and its feed nothing begins that holds no feed
      have hamid : needle.isPrefixOf ('\n' :: addReturns rest) = false := by
        cases needle with
        | nil => exact absurd rfl hne
        | cons n more =>
          have hn := (List.ne_and_not_mem_of_not_mem_cons hfeed).1
          rw [List.isPrefixOf_cons_cons, beq_eq_false_iff_ne.mpr hn.symm, Bool.false_and]
      rw [addReturns_feed] at hhere ⊢
      rw [occursIn, occursIn, occursIn, hhere, hamid, ih, Bool.false_or]
    · rw [addReturns_cons hc] at hhere ⊢
      rw [occursIn, occursIn, hhere, ih]

end Needle

/-! ## Taking, dropping and trimming -/

/-- What takes neither carriage returns nor line feeds takes the same. -/
theorem takeWhile_addReturns {p : Char → Bool} (hreturn : p '\r' = false) (hfeed : p '\n' = false)
    (text : List Char) : (addReturns text).takeWhile p = text.takeWhile p := by
  induction text with
  | nil => rfl
  | cons c rest ih =>
    by_cases hc : c = '\n'
    · subst hc
      rw [addReturns_feed, List.takeWhile_cons_of_neg (by simp [hreturn]),
        List.takeWhile_cons_of_neg (by simp [hfeed])]
    · rw [addReturns_cons hc, List.takeWhile_cons, List.takeWhile_cons, ih]

/-- What drops carriage returns just as it drops line feeds stops at the same
place. -/
theorem dropWhile_addReturns {p : Char → Bool} (h : p '\r' = p '\n') (text : List Char) :
    (addReturns text).dropWhile p = addReturns (text.dropWhile p) := by
  induction text with
  | nil => rfl
  | cons c rest ih =>
    by_cases hc : c = '\n'
    · subst hc
      rw [addReturns_feed, List.dropWhile_cons, List.dropWhile_cons, List.dropWhile_cons, h, ih]
      split
      · rfl
      · rw [addReturns_feed]
    · rw [addReturns_cons hc, List.dropWhile_cons, List.dropWhile_cons, ih]
      split
      · rfl
      · rw [addReturns_cons hc]

theorem rdropWhile_addReturns (text : List Char) :
    (addReturns text).rdropWhile isBlank = addReturns (text.rdropWhile isBlank) := by
  induction text using List.reverseRecOn with
  | nil => rfl
  | append_singleton text c ih =>
    rw [addReturns_append]
    by_cases hblank : isBlank c = true
    · rw [List.rdropWhile_concat_pos _ _ _ hblank, ← ih]
      by_cases hc : c = '\n'
      · subst hc
        have hpair :
            addReturns text ++ addReturns ['\n'] = addReturns text ++ ['\r'] ++ ['\n'] := by
          rw [addReturns_feed, addReturns_nil, List.append_assoc]
          rfl
        rw [hpair, List.rdropWhile_concat_pos _ _ _ hblank,
          List.rdropWhile_concat_pos _ _ _ (by decide)]
      · rw [addReturns_cons hc, addReturns_nil, List.rdropWhile_concat_pos _ _ _ hblank]
    · have hc : c ≠ '\n' := fun heq => hblank (heq ▸ by decide)
      rw [addReturns_cons hc, addReturns_nil, List.rdropWhile_concat_neg _ _ _ hblank,
        List.rdropWhile_concat_neg _ _ _ hblank, addReturns_append, addReturns_cons hc,
        addReturns_nil]

/-- **Trimming takes off what it took off before.** -/
theorem trim_addReturns (text : List Char) : trim (addReturns text) = addReturns (trim text) := by
  rw [trim_eq_rdropWhile, trim_eq_rdropWhile, dropWhile_addReturns (by decide),
    rdropWhile_addReturns]

end Text

end DocCoverage
