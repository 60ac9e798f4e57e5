import DocCoverage.Pattern.Meaning
import Mathlib.Data.List.Basic
/-!
# Patterns — what a declaration matches

A declaration matches where its lead ends in front of a name, a run of word
characters, and its tail matches behind the name. `Declaration.ends` says so
without stages, and `Declaration.ends_search` that these are the ends that
the search for a declaration follows.
-/

namespace DocCoverage

namespace Declaration

variable {d : Declaration} {c : Cursor} {m : List Char × Cursor} {passed : Option Char}
  {text : List Char}

/-- The name ahead, and the place behind it. -/
def name? (c : Cursor) : Option (List Char × Cursor) :=
  match c.ahead.takeWhile Text.isWordChar with
  | [] => none
  | x :: more => some (x :: more, ⟨(x :: more).getLast?, c.ahead.dropWhile Text.isWordChar⟩)

/-- The name ahead, with each place where the tail behind it can end. -/
def namedEnds (d : Declaration) (c : Cursor) : List (List Char × Cursor) :=
  (name? c).toList.flatMap fun named => (d.tail.ends named.2).map fun e => (named.1, e)

/-- The names that a declaration from here can declare, with the places where
it can end, the preferred one first. -/
def ends (d : Declaration) (c : Cursor) : List (List Char × Cursor) :=
  (d.lead.ends c).flatMap d.namedEnds

theorem name?_cons_of_word {x : Char} (rest : List Char) (h : Text.isWordChar x = true) :
    name? ⟨passed, x :: rest⟩ = some (x :: rest.takeWhile Text.isWordChar,
      ⟨(rest.takeWhile Text.isWordChar).getLast?.or (some x),
        rest.dropWhile Text.isWordChar⟩) := by
  have hlast := Search.getLast?_cons_or x (rest.takeWhile Text.isWordChar) none
  rw [Option.or_none] at hlast
  rw [name?, List.takeWhile_cons_of_pos h, List.dropWhile_cons_of_pos h, ← hlast]

theorem name?_cons_of_not_word {x : Char} (rest : List Char) (h : Text.isWordChar x = false) :
    name? ⟨passed, x :: rest⟩ = none := by
  rw [name?, List.takeWhile_cons_of_neg (by simp [h])]

/-! ## Places behind a name -/

theorem length_ahead_le_of_dropWhile {p : Pattern} {q : Char → Bool} {e : Cursor}
    (h : e ∈ p.ends ⟨passed, text.dropWhile q⟩) : e.ahead.length ≤ text.length :=
  Nat.le_trans (Pattern.length_ahead_le h) (List.dropWhile_suffix q).length_le

theorem length_ahead_le_of_mem_namedEnds (h : m ∈ d.namedEnds c) :
    m.2.ahead.length ≤ c.ahead.length := by
  obtain ⟨named, hnamed, hend⟩ := List.mem_flatMap.mp h
  obtain ⟨e, he, rfl⟩ := List.mem_map.mp hend
  have hname : name? c = some named := Option.mem_toList.mp hnamed
  unfold name? at hname
  split at hname
  · cases hname
  · obtain rfl := Option.some.inj hname
    exact length_ahead_le_of_dropWhile he

theorem length_ahead_le_of_mem_ends (h : m ∈ d.ends c) : m.2.ahead.length ≤ c.ahead.length := by
  obtain ⟨e, he, hm⟩ := List.mem_flatMap.mp h
  exact Nat.le_trans (length_ahead_le_of_mem_namedEnds hm) (Pattern.length_ahead_le he)

/-- The same match seen from one character before. -/
theorem behind_foundAt {name rest : List Char} {e : Cursor} (x : Char)
    (h : e.ahead.length ≤ rest.length) :
    (foundAt name rest e).behind 1 = foundAt name (x :: rest) e := by
  simp only [foundAt, Found.behind, List.length_cons, Found.mk.injEq, true_and]
  omega

/-! ## The search for a declaration -/

/-- Inside a name the search goes to its end and on with the tail. -/
theorem ends_name (d : Declaration) (read : List Char) (passed : Option Char) (text : List Char) :
    d.search.ends (.name read) passed text =
      (d.tail.ends ⟨(text.takeWhile Text.isWordChar).getLast?.or passed,
        text.dropWhile Text.isWordChar⟩).map
          (foundAt (read.reverse ++ text.takeWhile Text.isWordChar) text) := by
  induction text generalizing read passed with
  | nil => rw [ends_name_of_tail d read passed [] rfl, ends_tail]; simp
  | cons x rest ih =>
    by_cases hword : Text.isWordChar x = true
    · rw [ends_name_of_word d read passed rest hword, ih, List.map_map,
        List.takeWhile_cons_of_pos hword, List.dropWhile_cons_of_pos hword,
        Search.getLast?_cons_or]
      refine List.map_congr_left fun e he => ?_
      rw [Function.comp_apply, behind_foundAt x (length_ahead_le_of_dropWhile he),
        List.reverse_cons, List.append_assoc, List.singleton_append]
    · have hnone : (x :: rest).head?.any Text.isWordChar = false := by simpa using hword
      rw [ends_name_of_tail d read passed (x :: rest) hnone, ends_tail,
        List.takeWhile_cons_of_neg hword, List.dropWhile_cons_of_neg hword]
      simp

/-- In front of a name the search goes on behind the lead. -/
theorem ends_lead (d : Declaration) (lead : Pattern) (passed : Option Char) (text : List Char) :
    d.search.ends (.lead lead) passed text =
      ((lead.ends ⟨passed, text⟩).flatMap d.namedEnds).map fun m => foundAt m.1 text m.2 := by
  induction text generalizing lead passed with
  | nil =>
    rw [Pattern.ends_eq_moves, List.flatMap_assoc, List.map_flatMap, Search.ends]
    simp only [search, moves, List.flatMap_assoc]
    refine List.flatMap_congr fun move _ => ?_
    cases move with
    | finish result => rfl
    | pass next => rfl
  | cons x rest ih =>
    rw [Pattern.ends_eq_moves, List.flatMap_assoc, List.map_flatMap, Search.ends]
    simp only [search, moves, List.flatMap_assoc]
    refine List.flatMap_congr fun move _ => ?_
    cases move with
    | finish result =>
      rw [Pattern.endsBehind, List.flatMap_singleton, namedEnds]
      by_cases hword : Text.isWordChar x = true
      · have hname := ends_name d [x] (some x) rest
        simp only [search] at hname
        simp only [nameMoves, hword, if_true, List.flatMap_singleton, hname,
          name?_cons_of_word rest hword, Option.toList_some, List.map_map]
        exact List.map_congr_left fun e he =>
          behind_foundAt x (length_ahead_le_of_dropWhile he)
      · have hnone : Text.isWordChar x = false := by simpa using hword
        simp [nameMoves, hnone, name?_cons_of_not_word rest hnone]
    | pass next =>
      have hlead := ih next (some x)
      simp only [search] at hlead
      simp only [List.flatMap_singleton, Pattern.endsBehind, hlead, List.map_map]
      exact List.map_congr_left fun m hm => behind_foundAt x
        (length_ahead_le_of_mem_ends (d := ⟨next, d.tail⟩) (c := ⟨some x, rest⟩) hm)

/-- **The ends that the search for a declaration follows.** -/
theorem ends_search (d : Declaration) (passed : Option Char) (text : List Char) :
    d.search.ends d.search.start passed text =
      (d.ends ⟨passed, text⟩).map fun m => foundAt m.1 text m.2 :=
  d.ends_lead d.lead passed text

end Declaration

end DocCoverage
