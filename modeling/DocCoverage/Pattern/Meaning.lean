import DocCoverage.Pattern.Declaration
/-!
# Patterns — what a search finds

A search follows all ways of matching at once. Here it is compared with the
plain description of what it looks for: the ends of a match from a state,
the preferred first, and the first place at which there is one.
`Search.first?_eq` says that the search finds the preferred match at the
first place, and `Pattern.ends_search` that the ends it follows are those of
the pattern, so that `Pattern.occursIn_iff` holds.
-/

namespace DocCoverage

namespace Found

variable {Result : Type}

/-- A match seen from a place that lies before the beginning of the
search. -/
def behind (width : Nat) (found : Found Result) : Found Result :=
  ⟨found.result, width + found.width⟩

theorem map_behind_zero (found : Option (Found Result)) : found.map (behind 0) = found := by
  cases found <;> simp [behind]

theorem map_behind_one (width : Nat) (found : Option (Found Result)) :
    (found.map (behind 1)).map (behind width) = found.map (behind (width + 1)) := by
  cases found <;> simp [behind, Nat.add_assoc]

theorem map_behind_here (width : Nat) (result : Option Result) :
    (result.map fun result => ⟨result, 0⟩).map (behind width) =
      result.map fun result => ⟨result, width⟩ := by
  cases result <;> simp [behind]

end Found

namespace Search

variable {State Result : Type} {search : Search State Result}

/-! ## The ends of a match -/

/-- The ends of a match from a state, the preferred first. -/
def ends (search : Search State Result) (state : State) (passed : Option Char) :
    List Char → List (Found Result)
  | [] => (search.moves state ⟨passed, []⟩).flatMap fun
    | .finish result => [⟨result, 0⟩]
    | .pass _ => []
  | x :: rest => (search.moves state ⟨passed, x :: rest⟩).flatMap fun
    | .finish result => [⟨result, 0⟩]
    | .pass next => (ends search next (some x) rest).map (Found.behind 1)

/-- The preferred match at the first place where there is one. -/
def firstFrom (search : Search State Result) (passed : Option Char) :
    List Char → Option (Found Result)
  | [] => (search.ends search.start passed []).head?
  | x :: rest =>
    (search.ends search.start passed (x :: rest)).head?.or
      ((firstFrom search (some x) rest).map (Found.behind 1))

/-- States with the same moves have the same ends. -/
theorem ends_congr {a b : State} {passed : Option Char} {text : List Char}
    (h : search.moves a ⟨passed, text⟩ = search.moves b ⟨passed, text⟩) :
    search.ends a passed text = search.ends b passed text := by
  cases text <;> simp only [ends, h]

/-- States that go on alike can end at the same places or not at all. -/
def IsFair (search : Search State Result) : Prop :=
  ∀ a b, search.alike a b = true → ∀ passed text,
    (search.ends a passed text = [] ↔ search.ends b passed text = [])

/-! ## Alike states -/

/-- Leaving out states with no ends leaves out no end. -/
theorem flatMap_filter_of_nil {α β : Type} (f : α → List β) (keep : α → Bool) (as : List α)
    (h : ∀ a ∈ as, keep a = false → f a = []) : (as.filter keep).flatMap f = as.flatMap f := by
  induction as with
  | nil => rfl
  | cons a as ih =>
    have ih := ih fun b hb => h b (List.mem_cons_of_mem a hb)
    cases hk : keep a with
    | true => simp [List.filter, hk, ih]
    | false => simp [List.filter, hk, ih, h a (List.mem_cons_self ..) hk]

/-- The preferred end is that of all states or of the distinct ones. -/
theorem head?_distinct (fair : search.IsFair) (ways : List State) (passed : Option Char)
    (text : List Char) :
    ((search.distinct ways).flatMap fun s => search.ends s passed text).head? =
      (ways.flatMap fun s => search.ends s passed text).head? := by
  induction ways with
  | nil => rfl
  | cons state more ih =>
    simp only [distinct, List.flatMap_cons, List.head?_append]
    cases hend : search.ends state passed text with
    | cons _ _ => simp
    | nil =>
      rw [flatMap_filter_of_nil, ih]
      intro other _ hkeep
      exact (fair state other (by simpa using hkeep) passed text).1 hend

/-! ## One step of a search -/

/-- At the end of the text the preferred end is here. -/
theorem head?_ends_nil (ways : List State) (passed : Option Char) :
    (ways.flatMap fun s => search.ends s passed []).head? =
      (Move.firstResult? (ways.flatMap fun s => search.moves s ⟨passed, []⟩)).map
        fun result => ⟨result, 0⟩ := by
  simp only [ends, ← List.flatMap_assoc]
  generalize ways.flatMap (fun s => search.moves s ⟨passed, []⟩) = moves
  induction moves with
  | nil => rfl
  | cons move more ih => cases move <;> simp [Move.firstResult?, ih]

/-- In front of a character the preferred end is behind it, or else here. -/
theorem head?_ends_cons (ways : List State) (passed : Option Char) (x : Char)
    (rest : List Char) :
    (ways.flatMap fun s => search.ends s passed (x :: rest)).head? =
      (((Move.passes (ways.flatMap fun s => search.moves s ⟨passed, x :: rest⟩)).flatMap
        fun s => search.ends s (some x) rest).head?.map (Found.behind 1)).or
        ((Move.firstResult? (ways.flatMap fun s => search.moves s ⟨passed, x :: rest⟩)).map
          fun result => ⟨result, 0⟩) := by
  simp only [ends, ← List.flatMap_assoc]
  generalize ways.flatMap (fun s => search.moves s ⟨passed, x :: rest⟩) = moves
  induction moves with
  | nil => rfl
  | cons move more ih =>
    cases move with
    | finish result => simp [Move.passes, Move.firstResult?]
    | pass next =>
      simp only [List.flatMap_cons, List.head?_append, ih, Move.passes, Move.firstResult?,
        List.head?_map]
      cases (search.ends next (some x) rest).head? <;> simp

/-! ## The whole search -/

/-- The first match from here or later, where a match from here comes from
ways that have just begun. -/
theorem firstFrom_nil (passed : Option Char) :
    search.firstFrom passed [] =
      ([search.start].flatMap fun s => search.ends s passed []).head? := by
  simp [firstFrom]

theorem firstFrom_cons (passed : Option Char) (x : Char) (rest : List Char) :
    search.firstFrom passed (x :: rest) =
      ([search.start].flatMap fun s => search.ends s passed (x :: rest)).head?.or
        ((search.firstFrom (some x) rest).map (Found.behind 1)) := by
  simp [firstFrom]

/-- Ways that are under way come first, then the best match so far and, as
long as there is none, matches that begin here or later. -/
theorem seek_eq (fair : search.IsFair) (ways : List State) (best : Option (Found Result))
    (width : Nat) (passed : Option Char) (text : List Char) :
    search.seek ways best width passed text =
      ((ways.flatMap fun s => search.ends s passed text).head?.map (Found.behind width)).or
        (best.or ((search.firstFrom passed text).map (Found.behind width))) := by
  induction text generalizing ways best width passed with
  | nil =>
    cases best with
    | some found =>
      simp only [seek, Option.isSome_some, if_true, head?_ends_nil]
      cases Move.firstResult? (ways.flatMap fun s => search.moves s ⟨passed, []⟩) <;>
        simp [Found.behind]
    | none =>
      have all : ((ways ++ [search.start]).flatMap fun s => search.ends s passed []).head? = _ :=
        head?_ends_nil _ passed
      rw [List.flatMap_append, List.head?_append, ← firstFrom_nil] at all
      simp only [seek, Option.isSome_none, Bool.false_eq_true, if_false, Option.or_none,
        Option.none_or, ← Option.map_or, all, Option.map_map]
      rfl
  | cons x rest ih =>
    have go (moves : List (Move State Result)) (best : Option (Found Result)) :
        (if (search.distinct (Move.passes moves)).isEmpty && best.isSome then best
          else search.seek (search.distinct (Move.passes moves)) best (width + 1) (some x) rest) =
        (((Move.passes moves).flatMap fun s => search.ends s (some x) rest).head?.map
          (Found.behind (width + 1))).or
            (best.or ((search.firstFrom (some x) rest).map (Found.behind (width + 1)))) := by
      have same := head?_distinct fair (Move.passes moves) (some x) rest
      split
      · next stop =>
        simp only [Bool.and_eq_true, List.isEmpty_iff] at stop
        obtain ⟨none, some⟩ := stop
        obtain ⟨found, rfl⟩ := Option.isSome_iff_exists.1 some
        rw [none] at same
        simp [← same]
      · rw [ih, same]
    cases best with
    | some found =>
      simp only [seek, Option.isSome_some, if_true, go, head?_ends_cons, Option.map_or,
        Found.map_behind_one, Found.map_behind_here, Option.or_assoc, Option.some_or]
    | none =>
      have all : ((ways ++ [search.start]).flatMap fun s =>
          search.ends s passed (x :: rest)).head? = _ := head?_ends_cons _ passed x rest
      rw [List.flatMap_append, List.head?_append] at all
      simp only [seek, Option.isSome_none, Bool.false_eq_true, if_false, go, Option.or_none,
        Option.none_or, firstFrom_cons, Option.map_or, ← Option.or_assoc]
      rw [← Option.map_or, all, Option.map_or, Found.map_behind_one, Found.map_behind_one,
        Found.map_behind_here, Option.or_assoc]

/-- **A search finds the preferred match at the first place.** -/
theorem first?_eq (fair : search.IsFair) (passed : Option Char) (text : List Char) :
    search.first? passed text = search.firstFrom passed text := by
  rw [first?, seek_eq fair]
  simp [Found.map_behind_zero]

/-- The last of the characters passed, after one more in front. -/
theorem getLast?_cons_or (x : Char) (front : List Char) (passed : Option Char) :
    (x :: front).getLast?.or passed = front.getLast?.or (some x) := by
  cases front with
  | nil => rfl
  | cons y front =>
    rw [List.getLast?_cons_cons, List.getLast?_eq_some_getLast (List.cons_ne_nil y front)]
    rfl

/-- Whether there is a match at all. -/
theorem isSome_firstFrom_iff (passed : Option Char) (text : List Char) :
    (search.firstFrom passed text).isSome ↔
      ∃ front back, text = front ++ back ∧
        search.ends search.start (front.getLast?.or passed) back ≠ [] := by
  induction text generalizing passed with
  | nil =>
    simp only [firstFrom, List.isSome_head?]
    constructor
    · exact fun h => ⟨[], [], rfl, h⟩
    · rintro ⟨front, back, h, some⟩
      obtain ⟨rfl, rfl⟩ := List.nil_eq_append_iff.1 h
      exact some
  | cons x rest ih =>
    simp only [firstFrom, Option.isSome_or, Bool.or_eq_true, List.isSome_head?,
      Option.isSome_map, ih]
    constructor
    · rintro (h | ⟨front, back, rfl, h⟩)
      · exact ⟨[], x :: rest, rfl, h⟩
      · exact ⟨x :: front, back, rfl, by rwa [getLast?_cons_or]⟩
    · rintro ⟨front, back, h, some⟩
      cases front with
      | nil =>
        obtain rfl : x :: rest = back := h
        exact .inl some
      | cons y front =>
        obtain ⟨rfl, rfl⟩ := List.cons_eq_cons.1 h
        exact .inr ⟨front, back, rfl, by rwa [getLast?_cons_or] at some⟩

end Search

namespace Pattern

/-! ## Moves of patterns -/

theorem ends_andThen (p q : Pattern) (c : Cursor) :
    (p.andThen q).ends c = (p.ends c).flatMap q.ends := by
  cases p <;> simp [andThen, ends]

/-- The ends that a move leads to. -/
def endsBehind (c : Cursor) : Move Pattern Unit → List Cursor
  | .finish () => [c]
  | .pass next =>
    match c.ahead with
    | [] => []
    | x :: rest => next.ends ⟨some x, rest⟩

theorem flatMap_passing (g : Glyph) (next : Pattern) (c : Cursor) :
    (passing g next c.ahead).flatMap (endsBehind c) =
      match c.ahead with
      | [] => []
      | x :: rest => if g.admits x then next.ends ⟨some x, rest⟩ else [] := by
  unfold passing endsBehind
  cases c.ahead with
  | nil => rfl
  | cons x rest =>
    dsimp only
    split <;> simp

/-- The ends of a pattern are those that its moves lead to. -/
theorem ends_eq_moves (p : Pattern) (c : Cursor) :
    p.ends c = (p.moves c).flatMap (endsBehind c) := by
  induction p with
  | empty => rfl
  | one g =>
    rw [moves, flatMap_passing]
    obtain ⟨passed, ahead⟩ := c
    cases ahead <;> simp [ends, stepEnds]
  | many g =>
    rw [moves, List.flatMap_append, flatMap_passing]
    obtain ⟨passed, ahead⟩ := c
    cases ahead with
    | nil => simp [ends, runEnds, endsBehind]
    | cons x rest =>
      by_cases h : g.admits x <;> simp [ends, runEnds, endsBehind, h]
  | wordEdge => simp only [ends, moves]; split <;> simp [endsBehind]
  | lineStart => simp only [ends, moves]; split <;> simp [endsBehind]
  | lineEnd => simp only [ends, moves]; split <;> simp [endsBehind]
  | seq p q ihp ihq =>
    rw [ends, ihp, moves, List.flatMap_assoc, List.flatMap_assoc]
    congr 1
    funext move
    cases move with
    | finish result => simp [endsBehind, ← ihq]
    | pass next =>
      simp only [endsBehind, List.flatMap_cons, List.flatMap_nil, List.append_nil]
      cases c.ahead with
      | nil => rfl
      | cons x rest => simp [ends_andThen]
  | alt p q ihp ihq => rw [ends, moves, List.flatMap_append, ihp, ihq]

/-! ## Searching for a pattern -/

theorem length_runEnds_le {g : Glyph} {passed : Option Char} {text : List Char}
    {finish : Cursor} (h : finish ∈ runEnds g passed text) :
    finish.ahead.length ≤ text.length := by
  induction text generalizing passed with
  | nil => simp_all [runEnds]
  | cons x rest ih =>
    unfold runEnds at h
    split at h
    · rcases List.mem_append.1 h with h | h
      · exact Nat.le_succ_of_le (ih h)
      · simp_all
    · simp_all

/-- A match only goes ahead. -/
theorem length_ahead_le {p : Pattern} {c finish : Cursor} (h : finish ∈ p.ends c) :
    finish.ahead.length ≤ c.ahead.length := by
  induction p generalizing c finish with
  | empty => simp_all [ends]
  | one g =>
    obtain ⟨passed, text⟩ := c
    cases text with
    | nil => simp [ends, stepEnds] at h
    | cons x rest =>
      simp only [ends, stepEnds] at h
      split at h <;> simp_all
  | many g => exact length_runEnds_le h
  | wordEdge | lineStart | lineEnd =>
    simp only [ends] at h
    split at h <;> simp_all
  | seq p q ihp ihq =>
    obtain ⟨middle, first, second⟩ := List.mem_flatMap.1 h
    exact Nat.le_trans (ihq second) (ihp first)
  | alt p q ihp ihq => exact (List.mem_append.1 h).elim ihp ihq

/-- A match that ends at a cursor, as a search tells of it. -/
def foundAt (text : List Char) (finish : Cursor) : Found Unit :=
  ⟨(), text.length - finish.ahead.length⟩

/-- **The ends that a search follows are those of the pattern.** -/
theorem ends_search (p q : Pattern) (passed : Option Char) (text : List Char) :
    p.search.ends q passed text = (q.ends ⟨passed, text⟩).map (foundAt text) := by
  induction text generalizing q passed with
  | nil =>
    rw [ends_eq_moves, List.map_flatMap, Search.ends]
    congr 1
    funext move
    cases move <;> simp [endsBehind, foundAt]
  | cons x rest ih =>
    rw [ends_eq_moves, List.map_flatMap, Search.ends]
    congr 1
    funext move
    cases move with
    | finish result => simp [endsBehind, foundAt]
    | pass next =>
      simp only [endsBehind, ih, List.map_map]
      refine List.map_congr_left fun finish h => ?_
      have shorter : finish.ahead.length ≤ rest.length := length_ahead_le h
      simp only [Function.comp_apply, foundAt, Found.behind, List.length_cons, Found.mk.injEq,
        true_and]
      omega

theorem isFair_search (p : Pattern) : p.search.IsFair := by
  intro a b alike passed text
  obtain rfl : a = b := by simpa [search] using alike
  rfl

/-- **A pattern occurs in a text where a match begins somewhere.** -/
theorem occursIn_iff (p : Pattern) (text : List Char) :
    p.occursIn text ↔
      ∃ front back, text = front ++ back ∧ p.ends ⟨front.getLast?, back⟩ ≠ [] := by
  have start : p.search.start = p := rfl
  rw [occursIn, Search.first?_eq p.isFair_search, Search.isSome_firstFrom_iff]
  simp [ends_search, start]

end Pattern

namespace Declaration

/-! ## Searching for a declaration -/

/-- A declaration of this name that ends at a cursor, as a search tells of
it. -/
def foundAt (name text : List Char) (finish : Cursor) : Found (List Char) :=
  ⟨name, text.length - finish.ahead.length⟩

/-- Behind the name only the tail is left. -/
theorem ends_tail (d : Declaration) (name : List Char) (rest : Pattern) (passed : Option Char)
    (text : List Char) :
    d.search.ends (.tail name rest) passed text =
      (rest.ends ⟨passed, text⟩).map (foundAt name text) := by
  induction text generalizing rest passed with
  | nil =>
    rw [Pattern.ends_eq_moves, List.map_flatMap, Search.ends]
    simp only [search, moves, tailMoves, List.flatMap_map]
    congr 1
    funext move
    cases move <;> simp [Pattern.endsBehind, foundAt]
  | cons x more ih =>
    rw [Pattern.ends_eq_moves, List.map_flatMap, Search.ends]
    simp only [search, moves, tailMoves, List.flatMap_map]
    congr 1
    funext move
    cases move with
    | finish result => simp [Pattern.endsBehind, foundAt]
    | pass next =>
      have tail := ih next (some x)
      simp only [search] at tail
      simp only [Pattern.endsBehind, tail, List.map_map]
      refine List.map_congr_left fun finish h => ?_
      have shorter : finish.ahead.length ≤ more.length := Pattern.length_ahead_le h
      simp only [Function.comp_apply, foundAt, Found.behind, List.length_cons, Found.mk.injEq,
        true_and]
      omega

/-- In front of anything but a word character the name is complete. -/
theorem ends_name_of_tail (d : Declaration) (read : List Char) (passed : Option Char)
    (text : List Char) (h : text.head?.any Text.isWordChar = false) :
    d.search.ends (.name read) passed text =
      d.search.ends (.tail read.reverse d.tail) passed text := by
  apply Search.ends_congr
  cases text with
  | nil => rfl
  | cons x rest =>
    have none : Text.isWordChar x = false := by simpa using h
    simp [search, moves, nameMoves, none]

/-- In front of a word character the name goes on. -/
theorem ends_name_of_word (d : Declaration) (read : List Char) (passed : Option Char) {x : Char}
    (rest : List Char) (h : Text.isWordChar x) :
    d.search.ends (.name read) passed (x :: rest) =
      (d.search.ends (.name (x :: read)) (some x) rest).map (Found.behind 1) := by
  rw [Search.ends]
  simp [search, moves, nameMoves, h]

/-- Whether a declaration can end does not hang on the characters of its
name. -/
theorem ends_name_eq_nil_iff (d : Declaration) (one other : List Char) (passed : Option Char)
    (text : List Char) :
    d.search.ends (.name one) passed text = [] ↔ d.search.ends (.name other) passed text = [] := by
  induction text generalizing one other passed with
  | nil => simp only [ends_name_of_tail d _ passed [] (by simp), ends_tail, List.map_eq_nil_iff]
  | cons x rest ih =>
    by_cases word : Text.isWordChar x
    · simp only [ends_name_of_word d _ passed rest word, List.map_eq_nil_iff]
      exact ih (x :: one) (x :: other) (some x)
    · simp only [ends_name_of_tail d _ passed (x :: rest) (by simpa using word), ends_tail,
        List.map_eq_nil_iff]

theorem isFair_search (d : Declaration) : d.search.IsFair := by
  intro a b alike passed text
  have same : a.alike b = true := alike
  match a, b, same with
  | .lead p, .lead q, same =>
    obtain rfl : p = q := by simpa [Stage.alike] using same
    rfl
  | .name one, .name other, _ => exact d.ends_name_eq_nil_iff one other passed text
  | .tail one p, .tail other q, same =>
    obtain rfl : p = q := by simpa [Stage.alike] using same
    simp [ends_tail]

end Declaration

end DocCoverage
