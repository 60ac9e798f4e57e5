import DocCoverage.Proofs.Pattern.Declared
import DocCoverage.Proofs.Pattern.Wall
import Mathlib.Data.List.TakeWhile
/-!
# Patterns — matches in a growing text

The matches that do not overlap are found one after the other, so one that
begins early can hide others. When a text grows behind a wall, every match
in it stays the first one at its place, and all of them are found again, in
the same order (`Search.all_prefix`). Behind a wall there are at least as many
matches of a pattern (`Pattern.count_le_append`), and a declaration names what
it named before (`Declaration.names_prefix`).
-/

namespace DocCoverage

/-! ## Searches -/

namespace Search

variable {State Result : Type} {search : Search State Result} {passed : Option Char}
  {text more : List Char}

/-- Whether what is added at the end of a text does not change where a match
can end, as long as there is a match in the text. -/
def KeepsEnds (search : Search State Result) (more : List Char) : Prop :=
  ∀ passed text, (search.firstFrom passed text).isSome →
    search.ends search.start passed (text ++ more) = search.ends search.start passed text

/-- **The first match stays the first one.** -/
theorem firstFrom_append (hkeeps : search.KeepsEnds more) {found : Found Result}
    (h : search.firstFrom passed text = some found) :
    search.firstFrom passed (text ++ more) = some found := by
  induction text generalizing passed found with
  | nil =>
    have hsame := hkeeps passed [] (by rw [h]; rfl)
    rw [firstFrom] at h
    cases more with
    | nil => exact h
    | cons y more =>
      rw [List.nil_append] at hsame ⊢
      rw [firstFrom, hsame, h, Option.some_or]
  | cons x rest ih =>
    have hsame := hkeeps passed (x :: rest) (by rw [h]; rfl)
    rw [List.cons_append] at hsame ⊢
    rw [firstFrom] at h ⊢
    rw [hsame]
    cases hhere : (search.ends search.start passed (x :: rest)).head? with
    | some here =>
      rw [hhere, Option.some_or] at h
      rw [Option.some_or, h]
    | none =>
      rw [hhere, Option.none_or] at h
      obtain ⟨later, hlater, rfl⟩ := Option.map_eq_some_iff.mp h
      rw [Option.none_or, ih hlater, Option.map_some]

theorem allFrom_prefix (fair : search.IsFair) (hkeeps : search.KeepsEnds more) (covered : ℕ)
    (passed : Option Char) (text : List Char) :
    search.allFrom covered passed text <+: search.allFrom covered passed (text ++ more) := by
  induction text generalizing covered passed with
  | nil => exact List.nil_prefix
  | cons x rest ih =>
    rw [List.cons_append]
    cases covered with
    | succ n => exact ih n (some x)
    | zero =>
      rw [allFrom, allFrom, first?_eq fair, first?_eq fair]
      cases hfirst : search.firstFrom passed (x :: rest) with
      | none => exact List.nil_prefix
      | some found =>
        have hsame := firstFrom_append hkeeps hfirst
        rw [List.cons_append] at hsame
        rw [hsame]
        exact (List.prefix_cons_inj _).mpr (ih (found.width - 1) (some x))

/-- **Matches are found again**, before all that are found in what is
added. -/
theorem all_prefix (fair : search.IsFair) (hkeeps : search.KeepsEnds more) (text : List Char) :
    search.all text <+: search.all (text ++ more) :=
  allFrom_prefix fair hkeeps 0 none text

end Search

/-! ## Patterns -/

namespace Pattern

variable {p : Pattern} {w : Char} {back : List Char}

theorem foundAt_followedBy (text more : List Char) (e : Cursor) :
    foundAt (text ++ more) (e.followedBy more) = foundAt text e := by
  simp only [foundAt, Cursor.followedBy_ahead, List.length_append, Found.mk.injEq, true_and]
  omega

/-- In front of a wall a search ends where it ends in a text that ends there. -/
theorem ends_search_append (h : p.refuses w = true) (passed : Option Char)
    (text back : List Char) :
    p.search.ends p.search.start passed (text ++ w :: back) =
      p.search.ends p.search.start passed text := by
  have hends : p.ends ⟨passed, text ++ w :: back⟩ =
      (p.ends ⟨passed, text⟩).map fun e => e.followedBy (w :: back) :=
    ends_followedBy (c := ⟨passed, text⟩) h
  rw [ends_search, ends_search]
  change (p.ends _).map _ = (p.ends _).map _
  rw [hends, List.map_map]
  exact List.map_congr_left fun e _ => foundAt_followedBy text (w :: back) e

theorem keepsEnds_search (h : p.refuses w = true) : p.search.KeepsEnds (w :: back) :=
  fun passed text _ => ends_search_append h passed text back

/-- **Matches do not become fewer.** -/
theorem count_le_append (h : p.refuses w = true) (text back : List Char) :
    p.count text ≤ p.count (text ++ w :: back) :=
  (Search.all_prefix p.isFair_search (keepsEnds_search h) text).length_le

end Pattern

/-! ## Declarations -/

namespace Declaration

variable {d : Declaration} {c e : Cursor} {named : List Char × Cursor} {w gate : Char}
  {back : List Char}

/-- Whether a character is a wall for a declaration: its lead and its tail
refuse it, or the tail does so behind a gate, which every match has to take
and neither the lead nor a name can hold. -/
def IsWalledBy (d : Declaration) (w : Char) : Prop :=
  d.lead.refuses w = true ∧
    (d.tail.refuses w = true ∨
      ∃ gate, Text.isWordChar gate = false ∧ d.lead.refuses gate = true ∧
        d.tail.isGated gate w = true ∧ d.tail.demands gate = true)

theorem ahead_of_name? (h : name? c = some named) :
    named.2.ahead = c.ahead.dropWhile Text.isWordChar := by
  unfold name? at h
  split at h
  · cases h
  · obtain rfl := Option.some.inj h
    rfl

/-- What is no word character is ahead of a name if and only if it is ahead
behind it. -/
theorem mem_ahead_of_name? (h : name? c = some named) (hgate : Text.isWordChar gate = false) :
    gate ∈ named.2.ahead ↔ gate ∈ c.ahead := by
  rw [ahead_of_name? h]
  constructor
  · exact fun hmem => (List.dropWhile_suffix _).mem hmem
  · intro hmem
    rw [← List.takeWhile_append_dropWhile (p := Text.isWordChar) (l := c.ahead)] at hmem
    refine (List.mem_append.mp hmem).resolve_left fun htake => ?_
    rw [List.mem_takeWhile_imp htake] at hgate
    cases hgate

/-- A run of word characters ends at anything else. -/
theorem takeWhile_dropWhile_append (hw : Text.isWordChar w = false) (text back : List Char) :
    (text ++ w :: back).takeWhile Text.isWordChar = text.takeWhile Text.isWordChar ∧
      (text ++ w :: back).dropWhile Text.isWordChar =
        text.dropWhile Text.isWordChar ++ w :: back := by
  induction text with
  | nil => simp [hw]
  | cons x rest ih =>
    by_cases hx : Text.isWordChar x = true
    · simp [hx, ih]
    · simp [hx]

theorem name?_followedBy (hw : Text.isWordChar w = false) :
    name? (c.followedBy (w :: back)) =
      (name? c).map fun named => (named.1, named.2.followedBy (w :: back)) := by
  obtain ⟨htake, hdrop⟩ := takeWhile_dropWhile_append hw c.ahead back
  unfold name?
  rw [Cursor.followedBy_ahead, htake, hdrop]
  split <;> rfl

theorem namedEnds_followedBy (hw : Text.isWordChar w = false)
    (htail : ∀ named, name? c = some named → d.tail.ends (named.2.followedBy (w :: back)) =
      (d.tail.ends named.2).map fun e => e.followedBy (w :: back)) :
    d.namedEnds (c.followedBy (w :: back)) =
      (d.namedEnds c).map fun m => (m.1, m.2.followedBy (w :: back)) := by
  rw [namedEnds, namedEnds, name?_followedBy hw]
  cases hname : name? c with
  | none => rfl
  | some named =>
    simp only [Option.map_some, Option.toList_some, List.flatMap_singleton, htail named hname,
      List.map_map, Function.comp_def]

/-- Every match of a declaration whose tail demands a character has it
ahead. -/
theorem mem_ahead_of_demands (hdemands : d.tail.demands gate = true) (h : d.ends c ≠ []) :
    gate ∈ c.ahead := by
  obtain ⟨m, hm⟩ := List.exists_mem_of_ne_nil _ h
  obtain ⟨e, hlead, hm⟩ := List.mem_flatMap.mp hm
  obtain ⟨named, hnamed, hm⟩ := List.mem_flatMap.mp hm
  obtain ⟨finish, hfinish, -⟩ := List.mem_map.mp hm
  have hmem : gate ∈ named.2.ahead := Pattern.mem_of_demands hdemands hfinish
  rw [ahead_of_name? (Option.mem_toList.mp hnamed)] at hmem
  exact (Pattern.suffix_of_mem_ends hlead).mem ((List.dropWhile_suffix _).mem hmem)

/-- **Nothing behind a wall is seen by a declaration**, if its tail has no way
around or the gate is still ahead. -/
theorem ends_followedBy (hlead : d.lead.refuses w = true) (hw : Text.isWordChar w = false)
    (htail : d.tail.refuses w = true ∨ ∃ gate, Text.isWordChar gate = false ∧
      d.lead.refuses gate = true ∧ d.tail.isGated gate w = true ∧ gate ∈ c.ahead) :
    d.ends (c.followedBy (w :: back)) =
      (d.ends c).map fun m => (m.1, m.2.followedBy (w :: back)) := by
  rw [ends, ends, Pattern.ends_followedBy hlead, List.map_flatMap, List.flatMap_map]
  refine List.flatMap_congr fun e he => namedEnds_followedBy hw fun named hnamed => ?_
  rcases htail with htail | ⟨gate, hword, hopen, hgated, hgate⟩
  · exact Pattern.ends_followedBy htail
  · -- the gate is still ahead behind the lead and behind the name
    have hbehind : gate ∈ e.ahead := Pattern.mem_ahead_of_refused hopen hgate he
    exact Pattern.ends_followedBy_of_gate hgated ((mem_ahead_of_name? hnamed hword).mpr hbehind)

theorem keepsEnds_search (h : d.IsWalledBy w) (hw : Text.isWordChar w = false) :
    d.search.KeepsEnds (w :: back) := by
  intro passed text hfirst
  have hmatch (gate : Char) (hdemands : d.tail.demands gate = true) : gate ∈ text := by
    obtain ⟨front, rest, rfl, hends⟩ := (Search.isSome_firstFrom_iff passed text).mp hfirst
    rw [ends_search] at hends
    have hmem : gate ∈ rest := mem_ahead_of_demands hdemands (mt (congrArg (List.map _)) hends)
    exact List.mem_append_right front hmem
  have hends : d.ends ⟨passed, text ++ w :: back⟩ =
      (d.ends ⟨passed, text⟩).map fun m => (m.1, m.2.followedBy (w :: back)) :=
    ends_followedBy (c := ⟨passed, text⟩) h.1 hw <| h.2.imp id
      fun ⟨gate, hword, hopen, hgated, hdemands⟩ =>
        ⟨gate, hword, hopen, hgated, hmatch gate hdemands⟩
  rw [ends_search, ends_search, hends, List.map_map]
  refine List.map_congr_left fun m _ => ?_
  simp only [Function.comp_apply, foundAt, Cursor.followedBy_ahead, List.length_append,
    Found.mk.injEq, true_and]
  omega

/-- **A declaration names what it named before**, when a text grows behind a
wall. -/
theorem names_prefix (h : d.IsWalledBy w) (hw : Text.isWordChar w = false)
    (text back : List Char) : d.names text <+: d.names (text ++ w :: back) :=
  Search.all_prefix d.isFair_search (keepsEnds_search h hw) text

end Declaration

end DocCoverage
