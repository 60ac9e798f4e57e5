import DocCoverage.Proofs.Pattern.Matches
import DocCoverage.Proofs.Pattern.Stances
/-!
# Patterns — all matches around added returns

The matches that do not overlap are found one after the other, each behind the
one before. With returns in the text a match can end between a return and its
feed, where without them it ends behind the feed. As long as no match begins in
front of a feed, nothing is lost by that, and all matches are found again
(`Search.all_addReturns`). A pattern is counted as often
(`Pattern.count_addReturns`), and a declaration names what it named
(`Declaration.names_addReturns`).
-/

namespace DocCoverage

open Text (addReturns)

namespace Text

/-- How many characters of a text, and how many of the text with returns, are
the same stretch. Of a line break at its end the feed can be missing. -/
inductive Covers : List Char → ℕ → ℕ → Prop where
  | none (text : List Char) : Covers text 0 0
  | pass {x : Char} {rest : List Char} {n n' : ℕ} (hx : x ≠ '\n') (h : Covers rest n n') :
      Covers (x :: rest) (n + 1) (n' + 1)
  | feed {rest : List Char} {n n' : ℕ} (h : Covers rest n n') :
      Covers ('\n' :: rest) (n + 1) (n' + 2)
  | between (rest : List Char) : Covers ('\n' :: rest) 1 1

variable {text left left' : List Char}

/-- The text behind a line feed, if it begins with one. -/
def withoutFeed : List Char → List Char
  | [] => []
  | x :: rest => if x = '\n' then rest else x :: rest

theorem withoutFeed_feed (rest : List Char) : withoutFeed ('\n' :: rest) = rest := by
  rw [withoutFeed, if_pos rfl]

theorem withoutFeed_addReturns (text : List Char) :
    withoutFeed (addReturns text) = addReturns text := by
  cases text with
  | nil => rfl
  | cons x rest =>
    by_cases hx : x = '\n'
    · subst hx
      rw [addReturns_feed, withoutFeed, if_neg (by decide)]
    · rw [addReturns_cons hx, withoutFeed, if_neg hx]

theorem length_withoutFeed_le (text : List Char) : (withoutFeed text).length ≤ text.length := by
  cases text with
  | nil => exact le_rfl
  | cons x rest =>
    rw [withoutFeed]
    split
    · exact Nat.le_succ _
    · exact le_rfl

/-- What is added in front makes the text with returns longer. -/
theorem length_le_addReturns_append (front left : List Char) :
    front.length + (addReturns left).length ≤ (addReturns (front ++ left)).length := by
  rw [addReturns_append, List.length_append, length_addReturns front]
  omega

/-- What is passed up to the same place is the same stretch. -/
theorem covers_front (front : List Char) (h : left' <:+ addReturns (front ++ left))
    (hleft : withoutFeed left' = addReturns left) :
    Covers (front ++ left) front.length
      ((addReturns (front ++ left)).length - left'.length) := by
  have hshort := length_withoutFeed_le left'
  rw [hleft] at hshort
  induction front with
  | nil =>
    have hsame : left' = addReturns left := h.eq_of_length (Nat.le_antisymm h.length_le hshort)
    rw [List.nil_append, hsame, Nat.sub_self]
    exact .none left
  | cons x front ih =>
    have hlonger := length_le_addReturns_append front left
    rw [List.cons_append] at h ⊢
    by_cases hx : x = '\n'
    · subst hx
      rw [addReturns_feed] at h ⊢
      rcases List.suffix_cons_iff.mp h with rfl | h
      · -- the place in front of the return is not the one behind the feed
        rw [withoutFeed, if_neg (by decide)] at hleft
        have hlength := congrArg List.length hleft
        rw [List.length_cons, List.length_cons] at hlength
        omega
      rcases List.suffix_cons_iff.mp h with rfl | h
      · rw [withoutFeed_feed] at hleft
        have hlength := congrArg List.length hleft
        obtain rfl : front = [] := List.length_eq_zero_iff.mp (by omega)
        have hwidth : ('\r' :: '\n' :: addReturns left).length - ('\n' :: addReturns left).length =
            1 := Nat.add_sub_cancel_left _ 1
        rw [List.nil_append, hwidth]
        exact .between left
      · have hwidth : ('\r' :: '\n' :: addReturns (front ++ left)).length - left'.length =
            (addReturns (front ++ left)).length - left'.length + 2 := by
          have hbehind := h.length_le
          rw [List.length_cons, List.length_cons]
          omega
        rw [hwidth]
        exact .feed (ih h)
    · rw [addReturns_cons hx] at h ⊢
      rcases List.suffix_cons_iff.mp h with rfl | h
      · rw [withoutFeed, if_neg hx] at hleft
        have hlength := congrArg List.length hleft
        rw [List.length_cons] at hlength
        omega
      · have hwidth : (x :: addReturns (front ++ left)).length - left'.length =
            (addReturns (front ++ left)).length - left'.length + 1 :=
          Nat.sub_add_comm h.length_le
        rw [hwidth]
        exact .pass hx (ih h)

/-- The stretch behind a character that is no feed. -/
theorem Covers.tail {x : Char} {rest : List Char} {n n' : ℕ} (h : Covers (x :: rest) n n')
    (hx : x ≠ '\n') : Covers rest (n - 1) (n' - 1) := by
  cases h with
  | none => exact .none rest
  | pass _ hrest => exact hrest
  | feed | between => exact absurd rfl hx

theorem covers_of_suffix (h : left <:+ text) (h' : left' <:+ addReturns text)
    (hleft : withoutFeed left' = addReturns left) :
    Covers text (text.length - left.length) ((addReturns text).length - left'.length) := by
  obtain ⟨front, rfl⟩ := h
  have hfront := covers_front front h' hleft
  rwa [List.length_append, Nat.add_sub_cancel_right]

end Text

/-! ## Searches -/

namespace Search

variable {State Result : Type} {search : Search State Result} {text : List Char} {n n' : ℕ}

/-- Whether added returns do not change what a search finds. In front of a feed
it finds nothing, and everywhere else the same, up to the same place. -/
structure SkipsReturns (search : Search State Result) : Prop where
  fair : search.IsFair
  wide : search.IsWide
  atFeed : ∀ passed rest, search.ends search.start passed ('\n' :: rest) = []
  same : ∀ passed text,
    Option.Rel (fun found found' => found.result = found'.result ∧
        Text.Covers text found.width found'.width)
      (search.ends search.start passed text).head?
      (search.ends search.start passed (addReturns text)).head?

/-- Between a return and its feed a search goes on behind the feed. -/
theorem SkipsReturns.allFrom_feed (h : search.SkipsReturns) (passed : Option Char)
    (rest : List Char) :
    search.allFrom 0 passed ('\n' :: rest) = search.allFrom 0 (some '\n') rest :=
  allFrom_zero_of_none h.fair h.wide (by rw [h.atFeed, List.head?_nil])

/-- So it does in front of the return. -/
theorem SkipsReturns.allFrom_return (h : search.SkipsReturns) (passed : Option Char)
    (rest : List Char) :
    search.allFrom 0 passed ('\r' :: '\n' :: addReturns rest) =
      search.allFrom 0 (some '\n') (addReturns rest) := by
  have hsame := h.same passed ('\n' :: rest)
  rw [h.atFeed, List.head?_nil, Text.addReturns_feed] at hsame
  have hnone :
      (search.ends search.start passed ('\r' :: '\n' :: addReturns rest)).head? = none := by
    cases hhead : (search.ends search.start passed ('\r' :: '\n' :: addReturns rest)).head? with
    | none => rfl
    | some found =>
      rw [hhead] at hsame
      cases hsame
  rw [allFrom_zero_of_none h.fair h.wide hnone, h.allFrom_feed]

/-- **The same matches are found behind the same stretch.** -/
theorem SkipsReturns.allFrom_addReturns (h : search.SkipsReturns) (passed : Option Char)
    (hcovers : Text.Covers text n n') :
    search.allFrom n' passed (addReturns text) = search.allFrom n passed text := by
  induction text generalizing n n' passed with
  | nil => rfl
  | cons x rest ih =>
    cases hcovers with
    | pass hx hrest =>
      rw [Text.addReturns_cons hx, allFrom, allFrom, ih (some x) hrest]
    | feed hrest =>
      rw [Text.addReturns_feed, allFrom, allFrom, allFrom, ih (some '\n') hrest]
    | between =>
      rw [Text.addReturns_feed, allFrom, allFrom, h.allFrom_feed, ih (some '\n') (.none rest)]
    | none =>
      by_cases hx : x = '\n'
      · subst hx
        rw [Text.addReturns_feed, h.allFrom_return, h.allFrom_feed, ih (some '\n') (.none rest)]
      · have hsame := h.same passed (x :: rest)
        rw [Text.addReturns_cons hx] at hsame ⊢
        cases hhead : (search.ends search.start passed (x :: rest)).head? <;>
          cases hhead' : (search.ends search.start passed (x :: addReturns rest)).head? <;>
          rw [hhead, hhead'] at hsame <;> cases hsame
        case none.none =>
          rw [allFrom_zero_of_none h.fair h.wide hhead, allFrom_zero_of_none h.fair h.wide hhead',
            ih (some x) (.none rest)]
        case some.some hfound =>
          obtain ⟨hresult, hcovers⟩ := hfound
          rw [allFrom_zero_of_some h.fair hhead, allFrom_zero_of_some h.fair hhead', hresult,
            ih (some x) (hcovers.tail hx)]

/-- **All matches are found again.** -/
theorem SkipsReturns.all_addReturns (h : search.SkipsReturns) (text : List Char) :
    search.all (addReturns text) = search.all text :=
  h.allFrom_addReturns none (.none text)

/-! ### From stances -/

/-- What a search tells of a match in a text. -/
def foundAt (text : List Char) (m : Result × Cursor) : Found Result :=
  ⟨m.1, text.length - m.2.ahead.length⟩

variable {ends : Cursor → List (Result × Cursor)}

/-- What is told of the first match: its result, and the text that is left,
with returns. -/
def leftBehind (ends : Cursor → List (Result × Cursor)) (c : Cursor) :
    Option (Result × List Char) :=
  (ends c).findSome? fun m => some (m.1, addReturns m.2.ahead)

/-- What is told of the first match in a text with returns: its result, and
the text that is left, from behind a feed. -/
def leftBehindFeed (ends : Cursor → List (Result × Cursor)) (c : Cursor) :
    Option (Result × List Char) :=
  (ends c).findSome? fun m => some (m.1, Text.withoutFeed m.2.ahead)

/-- **A search skips returns** if its matches pass something and none of them
begins in front of a feed, where the first ones leave the same text behind. -/
theorem skipsReturns_of_blocked (fair : search.IsFair)
    (hends : ∀ passed text,
      search.ends search.start passed text = (ends ⟨passed, text⟩).map (foundAt text))
    (hpassed : ∀ c, ∀ m ∈ ends c, m.2.ahead <:+ c.ahead ∧ m.2.ahead.length < c.ahead.length)
    (h : Pattern.Stance.blocked.Holds (leftBehind ends) (leftBehindFeed ends)) :
    search.SkipsReturns where
  fair := fair
  wide passed text found hfound := by
    rw [hends] at hfound
    obtain ⟨m, hm, rfl⟩ := List.mem_map.mp hfound
    exact Nat.sub_pos_of_lt (hpassed _ m hm).2
  atFeed passed rest := by
    have hnone := h.2.2 passed rest
    rw [hends]
    cases hempty : ends ⟨passed, '\n' :: rest⟩ with
    | nil => rfl
    | cons m more =>
      rw [leftBehind, hempty] at hnone
      cases hnone
  same passed text := by
    have hagree := h.1 ⟨passed, text⟩
    rw [hends, hends]
    rw [leftBehind, leftBehindFeed] at hagree
    have hleft := hpassed ⟨passed, text⟩
    have hleft' := hpassed ⟨passed, addReturns text⟩
    change List.findSome? _ (ends ⟨passed, addReturns text⟩) = _ at hagree
    cases hone : ends ⟨passed, text⟩ <;> cases hother : ends ⟨passed, addReturns text⟩ <;>
      rw [hone, hother] at hagree
    case nil.nil => exact .none
    case cons.cons m more m' more' =>
      obtain ⟨hresult, hsame⟩ := Prod.mk.inj (Option.some.inj hagree)
      rw [hone] at hleft
      rw [hother] at hleft'
      exact .some ⟨hresult.symm, Text.covers_of_suffix (hleft m List.mem_cons_self).1
        (hleft' m' List.mem_cons_self).1 hsame⟩
    all_goals cases hagree

end Search

/-! ## Patterns -/

namespace Pattern

variable {p : Pattern} {R : Type}

/-- Whether a pattern passes something. -/
def takes : Pattern → Bool
  | one _ => true
  | seq p q => p.takes || q.takes
  | alt p q => p.takes && q.takes
  | empty | many _ | wordEdge | lineStart | lineEnd => false

theorem length_ahead_lt {c e : Cursor} (h : p.takes = true) (hend : e ∈ p.ends c) :
    e.ahead.length < c.ahead.length := by
  induction p generalizing c e with
  | one g =>
    obtain ⟨passed, ahead⟩ := c
    cases ahead with
    | nil => cases hend
    | cons x rest =>
      obtain ⟨-, hmem⟩ := List.mem_ite_nil_right.mp hend
      obtain rfl := List.mem_singleton.mp hmem
      exact Nat.lt_succ_self _
  | seq p q ihp ihq =>
    obtain ⟨middle, hfirst, hsecond⟩ := List.mem_flatMap.mp hend
    rw [takes, Bool.or_eq_true] at h
    rcases h with h | h
    · exact lt_of_le_of_lt (length_ahead_le hsecond) (ihp h hfirst)
    · exact lt_of_lt_of_le (ihq h hsecond) (length_ahead_le hfirst)
  | alt p q ihp ihq =>
    obtain ⟨hp, hq⟩ := (Bool.and_eq_true _ _).mp h
    rcases List.mem_append.mp hend with hend | hend
    · exact ihp hp hend
    · exact ihq hq hend
  | empty | many | wordEdge | lineStart | lineEnd => cases h

/-- What is left behind agrees, and is the same between a return and its feed
as behind the feed. -/
theorem passing_left (result : R) :
    Stance.passing.Holds (fun e => some (result, addReturns e.ahead))
      fun e => some (result, Text.withoutFeed e.ahead) := by
  have htold {left text : List Char} (h : Text.withoutFeed left = text) :
      some (result, Text.withoutFeed left) = some (result, text) := congrArg _ (congrArg _ h)
  exact ⟨fun c => htold (Text.withoutFeed_addReturns c.ahead),
    fun rest => htold (Text.withoutFeed_feed (addReturns rest))⟩

theorem skipsReturns_search (htakes : p.takes = true)
    (hstance : p.stance .passing = some .blocked) : p.search.SkipsReturns := by
  let ends (c : Cursor) : List (Unit × Cursor) := (p.ends c).map fun e => ((), e)
  have htold (tell : Cursor → Option (Unit × List Char)) (c : Cursor) :
      (ends c).findSome? (fun m => tell m.2) = p.told tell c := List.findSome?_map
  have hends (passed : Option Char) (text : List Char) :
      p.search.ends p.search.start passed text =
        (ends ⟨passed, text⟩).map (Search.foundAt text) := by
    rw [List.map_map]
    exact ends_search p p passed text
  refine Search.skipsReturns_of_blocked p.isFair_search hends ?_ ?_
  · intro c m hm
    obtain ⟨e, he, rfl⟩ := List.mem_map.mp hm
    exact ⟨suffix_of_mem_ends he, length_ahead_lt htakes he⟩
  · have hblocked := holds_told hstance (passing_left ())
    rwa [← funext (htold _), ← funext (htold _)] at hblocked

/-- **Matches are counted as often.** -/
theorem count_addReturns (htakes : p.takes = true) (hstance : p.stance .passing = some .blocked)
    (text : List Char) : p.count (addReturns text) = p.count text :=
  congrArg List.length ((skipsReturns_search htakes hstance).all_addReturns text)

end Pattern

/-! ## Declarations -/

namespace Declaration

variable {d : Declaration} {t : Pattern.Stance} {R : Type}

/-- The name ahead is the same. -/
theorem name?_addReturns (c : Cursor) :
    name? c.addReturns = (name? c).map fun named => (named.1, named.2.addReturns) := by
  have htake : (addReturns c.ahead).takeWhile Text.isWordChar = c.ahead.takeWhile Text.isWordChar :=
    Text.takeWhile_addReturns (by decide) (by decide) c.ahead
  have hdrop : (addReturns c.ahead).dropWhile Text.isWordChar =
      addReturns (c.ahead.dropWhile Text.isWordChar) :=
    Text.dropWhile_addReturns (by decide) c.ahead
  unfold name?
  rw [Cursor.addReturns, htake, hdrop]
  split <;> rfl

theorem name?_feed (passed : Option Char) (rest : List Char) :
    name? ⟨passed, '\n' :: rest⟩ = none :=
  name?_cons_of_not_word rest (by decide)

theorem findSome?_namedEnds (tell : List Char × Cursor → Option R) (c : Cursor) :
    (d.namedEnds c).findSome? tell =
      (name? c).bind fun named => d.tail.told (fun e => tell (named.1, e)) named.2 := by
  rw [namedEnds]
  cases name? c with
  | none => rfl
  | some named =>
    rw [Option.toList_some, List.flatMap_singleton, List.findSome?_map]
    rfl

/-- In front of a name nothing is told in front of a feed. -/
theorem blocked_namedEnds (htail : d.tail.stance .passing = some t) (ht : t ≠ .settled) :
    Pattern.Stance.blocked.Holds (Search.leftBehind d.namedEnds)
      (Search.leftBehindFeed d.namedEnds) := by
  have hnone (tell : List Char × Cursor → Option (List Char × List Char)) (passed : Option Char)
      (rest : List Char) : (d.namedEnds ⟨passed, '\n' :: rest⟩).findSome? tell = none := by
    rw [findSome?_namedEnds, name?_feed]
    rfl
  refine ⟨fun c => ?_, fun rest => hnone _ _ _, fun passed rest => hnone _ _ _⟩
  rw [Search.leftBehind, Search.leftBehindFeed, findSome?_namedEnds, findSome?_namedEnds,
    name?_addReturns]
  cases name? c with
  | none => rfl
  | some named =>
    have hagree := (Pattern.holds_told htail (Pattern.passing_left named.1)).agree ht
    exact hagree named.2

theorem skipsReturns_search (hlead : d.lead.stance .blocked = some .blocked)
    (htail : d.tail.stance .passing = some t) (ht : t ≠ .settled) : d.search.SkipsReturns := by
  have hleft : Search.leftBehind d.ends = d.lead.told (Search.leftBehind d.namedEnds) :=
    funext fun _ => Pattern.findSome?_flatMap _ _ _
  have hleft' : Search.leftBehindFeed d.ends = d.lead.told (Search.leftBehindFeed d.namedEnds) :=
    funext fun _ => Pattern.findSome?_flatMap _ _ _
  refine Search.skipsReturns_of_blocked d.isFair_search d.ends_search
    (fun c m hm => suffix_of_mem_ends hm) ?_
  rw [hleft, hleft']
  exact Pattern.holds_told hlead (blocked_namedEnds htail ht)

/-- **A declaration names what it named.** -/
theorem names_addReturns (hlead : d.lead.stance .blocked = some .blocked)
    (htail : d.tail.stance .passing = some t) (ht : t ≠ .settled) (text : List Char) :
    d.names (addReturns text) = d.names text :=
  (skipsReturns_search hlead htail ht).all_addReturns text

end Declaration

end DocCoverage
