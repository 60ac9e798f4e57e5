import DocCoverage.Pattern.Meaning
import DocCoverage.Proofs.Text.Returns
/-!
# Patterns — matches around added returns

A pattern that runs over blanks passes a carriage return before it passes a
line feed, and it can end between the two, where the text without returns has
no place. What comes of that hangs on what follows the pattern. So a pattern
is looked at together with what is told of its ends: `told` is the first thing
told. How what is told in the two texts compares is a `Stance`, and for every
kind of pattern it is shown here what becomes of a stance in front of it.
-/

namespace DocCoverage

open Text (addReturns)

namespace Cursor

variable {passed : Option Char} {x : Char}

/-- The same place in the text with returns. -/
def addReturns (c : Cursor) : Cursor := ⟨c.passed, Text.addReturns c.ahead⟩

/-- The place between a return that was added and its line feed. -/
def between (rest : List Char) : Cursor := ⟨some '\r', '\n' :: Text.addReturns rest⟩

theorem addReturns_nil (passed : Option Char) : addReturns ⟨passed, []⟩ = ⟨passed, []⟩ := rfl

theorem addReturns_cons (hx : x ≠ '\n') (passed : Option Char) (rest : List Char) :
    addReturns ⟨passed, x :: rest⟩ = ⟨passed, x :: Text.addReturns rest⟩ := by
  rw [addReturns, Text.addReturns_cons hx]

theorem addReturns_feed (passed : Option Char) (rest : List Char) :
    addReturns ⟨passed, '\n' :: rest⟩ = ⟨passed, '\r' :: '\n' :: Text.addReturns rest⟩ := by
  rw [addReturns, Text.addReturns_feed]

/-- The edges of words are where they were. -/
theorem atWordEdge_addReturns (c : Cursor) : c.addReturns.atWordEdge = c.atWordEdge := by
  have hhead : (Text.addReturns c.ahead).head?.any Text.isWordChar =
      c.ahead.head?.any Text.isWordChar := by
    obtain ⟨passed, ahead⟩ := c
    cases ahead with
    | nil => rfl
    | cons x rest =>
      by_cases hx : x = '\n'
      · subst hx
        rw [Text.addReturns_feed, List.head?_cons, List.head?_cons]
        rfl
      · rw [Text.addReturns_cons hx]
        rfl
  rw [atWordEdge, atWordEdge, addReturns, hhead]

theorem atWordEdge_between (rest : List Char) : (between rest).atWordEdge = false := by
  rw [atWordEdge, between, List.head?_cons]
  rfl

/-- The beginnings of lines are where they were. -/
theorem atLineStart_addReturns (c : Cursor) : c.addReturns.atLineStart = c.atLineStart := rfl

theorem atLineStart_between (rest : List Char) : (between rest).atLineStart = false := rfl

end Cursor

/-! ## What is told of the ends -/

namespace Pattern

variable {R : Type} {p q : Pattern} {g : Glyph} {tell : Cursor → Option R}
  {passed : Option Char} {x : Char} {rest : List Char}

/-- What is told of the first end of which anything is told. -/
def told (p : Pattern) (tell : Cursor → Option R) (c : Cursor) : Option R :=
  (p.ends c).findSome? tell

theorem told_empty : empty.told tell = tell := by
  funext c
  rw [told, ends, List.findSome?_singleton]

theorem told_one_cons : (one g).told tell ⟨passed, x :: rest⟩ =
    if g.admits x then tell ⟨some x, rest⟩ else none := by
  rw [told, ends, stepEnds]
  split
  · rw [List.findSome?_singleton]
  · rw [List.findSome?_nil]

theorem told_many_nil : (many g).told tell ⟨passed, []⟩ = tell ⟨passed, []⟩ := by
  rw [told, ends, runEnds, List.findSome?_singleton]

theorem told_many_cons_of_admits (h : g.admits x = true) :
    (many g).told tell ⟨passed, x :: rest⟩ =
      ((many g).told tell ⟨some x, rest⟩).or (tell ⟨passed, x :: rest⟩) := by
  rw [told, ends, runEnds, if_pos h, List.findSome?_append, List.findSome?_singleton]
  rfl

theorem told_many_cons_of_not_admits (h : g.admits x = false) :
    (many g).told tell ⟨passed, x :: rest⟩ = tell ⟨passed, x :: rest⟩ := by
  rw [told, ends, runEnds, if_neg (Bool.not_eq_true _ ▸ h), List.findSome?_singleton]

/-- A run can be empty. -/
theorem told_many_or (g : Glyph) (tell : Cursor → Option R) (c : Cursor) :
    ((many g).told tell c).or (tell c) = (many g).told tell c := by
  obtain ⟨passed, ahead⟩ := c
  cases ahead with
  | nil => rw [told_many_nil, Option.or_self]
  | cons x rest =>
    cases h : g.admits x with
    | true => rw [told_many_cons_of_admits h, Option.or_assoc, Option.or_self]
    | false => rw [told_many_cons_of_not_admits h, Option.or_self]

/-- At a position that is asked for nothing is passed. -/
theorem told_position {here : Cursor → Bool} (h : ∀ c, p.ends c = if here c then [c] else [])
    (c : Cursor) : p.told tell c = if here c then tell c else none := by
  rw [told, h]
  split
  · rw [List.findSome?_singleton]
  · rw [List.findSome?_nil]

theorem findSome?_flatMap {α β : Type} (as : List α) (f : α → List β) (tell : β → Option R) :
    (as.flatMap f).findSome? tell = as.findSome? fun a => (f a).findSome? tell := by
  induction as with
  | nil => rfl
  | cons a more ih =>
    rw [List.flatMap_cons, List.findSome?_append, ih, List.findSome?_cons]
    cases (f a).findSome? tell <;> rfl

theorem told_seq : (seq p q).told tell = p.told (q.told tell) := by
  funext c
  rw [told, ends, findSome?_flatMap]
  rfl

theorem told_alt (c : Cursor) : (alt p q).told tell c = (p.told tell c).or (q.told tell c) := by
  rw [told, ends, List.findSome?_append]
  rfl

/-! ## Telling in both texts -/

section Telling

variable {R : Type} (tell tell' : Cursor → Option R)

/-- The same is told at a place, whether the text has returns or not. -/
def Agree : Prop := ∀ c : Cursor, tell' c.addReturns = tell c

/-- The same is told in front of anything but a line feed. Where there is one,
the three places around the return and the feed together tell what the places
around the feed do, if the last place is asked first. -/
def Settle : Prop :=
  (∀ c : Cursor, c.ahead.head? ≠ some '\n' → tell' c.addReturns = tell c) ∧
    ∀ passed rest,
      (tell' (Cursor.addReturns ⟨some '\n', rest⟩)).or
          ((tell' (Cursor.between rest)).or (tell' (Cursor.addReturns ⟨passed, '\n' :: rest⟩))) =
        (tell' (Cursor.addReturns ⟨some '\n', rest⟩)).or (tell ⟨passed, '\n' :: rest⟩)

/-- How what is told in a text with returns compares with what is told in the
text without. -/
inductive Stance where
  /-- Line breaks tell the same as a whole. -/
  | settled
  /-- Every place tells the same. -/
  | agreed
  /-- Both. -/
  | steady
  /-- Every place tells the same, and the place between a return and its feed
  tells what the place behind the feed does. -/
  | passing
  /-- All places tell one thing. -/
  | constant
  /-- Every place tells the same, and nothing is told in front of a feed. -/
  | blocked
deriving DecidableEq, Repr

/-- What a stance says. -/
def Stance.Holds : Stance → Prop
  | settled => Settle tell tell'
  | agreed => Agree tell tell'
  | steady => Agree tell tell' ∧ Settle tell tell'
  | passing => Agree tell tell' ∧ ∀ rest, tell' (Cursor.between rest) = tell ⟨some '\n', rest⟩
  | constant => ∃ r, (∀ c, tell c = r) ∧ ∀ c, tell' c = r
  | blocked => Agree tell tell' ∧ (∀ rest, tell' (Cursor.between rest) = none) ∧
      ∀ passed rest, tell ⟨passed, '\n' :: rest⟩ = none

end Telling

section Comparing

variable {tell' : Cursor → Option R} {s t : Stance}

/-- Telling nothing between a return and its feed settles what agrees. -/
theorem Agree.settle_of_none (h : Agree tell tell')
    (hnone : ∀ rest, tell' (Cursor.between rest) = none) : Settle tell tell' := by
  refine ⟨fun c _ => h c, fun passed rest => ?_⟩
  rw [hnone, Option.none_or, h ⟨passed, '\n' :: rest⟩]

/-- So does telling what is told behind the feed. -/
theorem Agree.settle_of_behind (h : Agree tell tell')
    (hbehind : ∀ rest, tell' (Cursor.between rest) = tell ⟨some '\n', rest⟩) :
    Settle tell tell' := by
  refine ⟨fun c _ => h c, fun passed rest => ?_⟩
  rw [hbehind, h, h, ← Option.or_assoc, Option.or_self]

theorem Stance.Holds.agree (h : s.Holds tell tell') (hs : s ≠ .settled) : Agree tell tell' := by
  cases s with
  | settled => exact absurd rfl hs
  | agreed => exact h
  | steady => exact h.1
  | passing => exact h.1
  | constant =>
    obtain ⟨r, htell, htell'⟩ := h
    exact fun c => (htell' _).trans (htell c).symm
  | blocked => exact h.1

theorem Stance.Holds.settle (h : s.Holds tell tell') (hs : s ≠ .agreed) :
    Settle tell tell' := by
  cases s with
  | settled => exact h
  | agreed => exact absurd rfl hs
  | steady => exact h.2
  | passing => exact h.1.settle_of_behind h.2
  | constant =>
    obtain ⟨r, htell, htell'⟩ := h
    exact Agree.settle_of_behind (fun c => (htell' _).trans (htell c).symm)
      fun rest => (htell' _).trans (htell _).symm
  | blocked => exact h.1.settle_of_none h.2.1

/-- What tells one thing everywhere tells it behind a feed too. -/
theorem Stance.Holds.passing_of_constant (h : Stance.constant.Holds tell tell') :
    Stance.passing.Holds tell tell' := by
  obtain ⟨r, htell, htell'⟩ := h
  exact ⟨fun c => (htell' _).trans (htell c).symm, fun rest => (htell' _).trans (htell _).symm⟩

/-! ## In front of a pattern -/

/-- One character, which may be a return or a feed, in front of telling that
goes past line breaks. -/
theorem steady_one (hreturn : g.admits '\r' = true) (hfeed : g.admits '\n' = true)
    (h : Stance.passing.Holds tell tell') :
    Stance.steady.Holds ((one g).told tell) ((one g).told tell') := by
  obtain ⟨hagree, hbehind⟩ := h
  have hfront (passed : Option Char) (rest : List Char) :
      (one g).told tell' (Cursor.addReturns ⟨passed, '\n' :: rest⟩) = tell ⟨some '\n', rest⟩ := by
    rw [Cursor.addReturns_feed, told_one_cons, if_pos hreturn]
    exact hbehind rest
  have hone : Agree ((one g).told tell) ((one g).told tell') := by
    rintro ⟨passed, ahead⟩
    cases ahead with
    | nil => rfl
    | cons x rest =>
      by_cases hx : x = '\n'
      · subst hx
        rw [hfront, told_one_cons, if_pos hfeed]
      · rw [Cursor.addReturns_cons hx, told_one_cons, told_one_cons]
        exact ite_congr rfl (fun _ => hagree ⟨some x, rest⟩) fun _ => rfl
  refine ⟨hone, fun c _ => hone c, fun passed rest => ?_⟩
  -- the feed is passed from between, and that tells what passing the return does
  have hpast : (one g).told tell' (Cursor.between rest) = tell ⟨some '\n', rest⟩ := by
    rw [Cursor.between, told_one_cons, if_pos hfeed]
    exact hagree ⟨some '\n', rest⟩
  rw [hpast, hfront, told_one_cons, if_pos hfeed, Option.or_self]

/-- One character that is neither a return nor a feed. -/
theorem blocked_one (hreturn : g.admits '\r' = false) (hfeed : g.admits '\n' = false)
    (h : Agree tell tell') :
    Stance.blocked.Holds ((one g).told tell) ((one g).told tell') := by
  have hnone (passed : Option Char) (rest : List Char) (tell : Cursor → Option R) :
      (one g).told tell ⟨passed, '\n' :: rest⟩ = none := by
    rw [told_one_cons, if_neg (Bool.not_eq_true _ ▸ hfeed)]
  refine ⟨?_, fun rest => hnone _ _ _, fun passed rest => hnone _ _ _⟩
  rintro ⟨passed, ahead⟩
  cases ahead with
  | nil => rfl
  | cons x rest =>
    by_cases hx : x = '\n'
    · subst hx
      rw [hnone, Cursor.addReturns_feed, told_one_cons, if_neg (Bool.not_eq_true _ ▸ hreturn)]
    · rw [Cursor.addReturns_cons hx, told_one_cons, told_one_cons]
      exact ite_congr rfl (fun _ => h ⟨some x, rest⟩) fun _ => rfl

/-- A run agrees if what follows it does so away from feeds, and the run does so
in front of every feed behind which it does. -/
theorem agree_many (h : ∀ c : Cursor, c.ahead.head? ≠ some '\n' → tell' c.addReturns = tell c)
    (hfeed : ∀ passed rest,
      (many g).told tell' (Cursor.addReturns ⟨some '\n', rest⟩) =
        (many g).told tell ⟨some '\n', rest⟩ →
      (many g).told tell' (Cursor.addReturns ⟨passed, '\n' :: rest⟩) =
        (many g).told tell ⟨passed, '\n' :: rest⟩) :
    Agree ((many g).told tell) ((many g).told tell') := by
  rintro ⟨passed, ahead⟩
  induction ahead generalizing passed with
  | nil =>
    have hend := h ⟨passed, []⟩ nofun
    rw [Cursor.addReturns_nil] at hend ⊢
    rw [told_many_nil, told_many_nil, hend]
  | cons x rest ih =>
    by_cases hx : x = '\n'
    · subst hx
      exact hfeed passed rest (ih (some '\n'))
    · have hhere := h ⟨passed, x :: rest⟩ fun heq => hx (Option.some.inj heq)
      have hlater := ih (some x)
      rw [Cursor.addReturns_cons hx] at hhere ⊢
      cases hadmits : g.admits x with
      | true =>
        rw [told_many_cons_of_admits hadmits, told_many_cons_of_admits hadmits, hhere, ← hlater]
        rfl
      | false =>
        rw [told_many_cons_of_not_admits hadmits, told_many_cons_of_not_admits hadmits, hhere]

/-- Between a return and its feed, a run that goes past feeds has been behind
the feed. -/
theorem told_many_between (hfeed : g.admits '\n' = true) (rest : List Char) :
    (many g).told tell' (Cursor.between rest) =
      ((many g).told tell' (Cursor.addReturns ⟨some '\n', rest⟩)).or
        (tell' (Cursor.between rest)) :=
  told_many_cons_of_admits hfeed

/-- In front of a return, a run that goes past both has been between them. -/
theorem told_many_front (hreturn : g.admits '\r' = true) (passed : Option Char)
    (rest : List Char) :
    (many g).told tell' (Cursor.addReturns ⟨passed, '\n' :: rest⟩) =
      ((many g).told tell' (Cursor.between rest)).or
        (tell' (Cursor.addReturns ⟨passed, '\n' :: rest⟩)) := by
  rw [Cursor.addReturns_feed, told_many_cons_of_admits hreturn]
  rfl

/-- A run that goes past returns and feeds, in front of what is settled: before
it ends in front of a line break it has been behind it. -/
theorem steady_many (hreturn : g.admits '\r' = true) (hfeed : g.admits '\n' = true)
    (h : Settle tell tell') :
    Stance.steady.Holds ((many g).told tell) ((many g).told tell') := by
  have hagree : Agree ((many g).told tell) ((many g).told tell') := by
    refine agree_many h.1 fun passed rest hbehind => ?_
    have hbreak := h.2 passed rest
    generalize hfront : tell' (Cursor.addReturns ⟨passed, '\n' :: rest⟩) = front at hbreak
    calc (many g).told tell' (Cursor.addReturns ⟨passed, '\n' :: rest⟩)
        = ((many g).told tell' (Cursor.addReturns ⟨some '\n', rest⟩)).or
            ((tell' (Cursor.between rest)).or front) := by
          rw [told_many_front hreturn, told_many_between hfeed, hfront, Option.or_assoc]
      _ = ((many g).told tell' (Cursor.addReturns ⟨some '\n', rest⟩)).or
            (tell ⟨passed, '\n' :: rest⟩) := by
          -- the run behind the break can be empty, and the break is settled from there
          rw [← told_many_or, Option.or_assoc, Option.or_assoc, hbreak]
      _ = (many g).told tell ⟨passed, '\n' :: rest⟩ := by
          rw [hbehind, told_many_cons_of_admits hfeed]
  refine ⟨hagree, fun c _ => hagree c, fun passed rest => ?_⟩
  have hagain : ((many g).told tell' (Cursor.between rest)).or
        ((many g).told tell' (Cursor.addReturns ⟨passed, '\n' :: rest⟩)) =
      (many g).told tell' (Cursor.addReturns ⟨passed, '\n' :: rest⟩) := by
    rw [told_many_front hreturn, ← Option.or_assoc, Option.or_self]
  rw [hagain, hagree ⟨passed, '\n' :: rest⟩]

/-- Unless something new is told between a return and its feed, nothing new is
told there of a run. -/
theorem passing_many (hreturn : g.admits '\r' = true) (hfeed : g.admits '\n' = true)
    (h : Settle tell tell') (hbetween : ∀ rest, tell' (Cursor.between rest) = none ∨
      tell' (Cursor.between rest) = tell ⟨some '\n', rest⟩) :
    Stance.passing.Holds ((many g).told tell) ((many g).told tell') := by
  have hmany := (steady_many hreturn hfeed h).1
  refine ⟨hmany, fun rest => ?_⟩
  rw [told_many_between hfeed, hmany]
  rcases hbetween rest with hnone | hbehind
  · rw [hnone, Option.or_none]
  · rw [hbehind, told_many_or]

/-- A run that stops in front of both. -/
theorem agree_many_of_agree (hreturn : g.admits '\r' = false) (hfeed : g.admits '\n' = false)
    (h : Agree tell tell') : Agree ((many g).told tell) ((many g).told tell') := by
  refine agree_many (fun c _ => h c) fun passed rest _ => ?_
  have hhere := h ⟨passed, '\n' :: rest⟩
  rw [Cursor.addReturns_feed] at hhere ⊢
  rw [told_many_cons_of_not_admits hreturn, told_many_cons_of_not_admits hfeed, hhere]

/-- A run that stops in front of feeds tells nothing there if nothing is told
there behind it, whether or not it passes returns. -/
theorem blocked_many (hfeed : g.admits '\n' = false) (h : Stance.blocked.Holds tell tell') :
    Stance.blocked.Holds ((many g).told tell) ((many g).told tell') := by
  obtain ⟨hagree, hbetween, hnone⟩ := h
  have hstop (passed : Option Char) (rest : List Char) (tell : Cursor → Option R) :
      (many g).told tell ⟨passed, '\n' :: rest⟩ = tell ⟨passed, '\n' :: rest⟩ :=
    told_many_cons_of_not_admits hfeed
  have hpast (rest : List Char) : (many g).told tell' (Cursor.between rest) = none :=
    (hstop _ _ _).trans (hbetween rest)
  refine ⟨agree_many (fun c _ => hagree c) fun passed rest _ => ?_, hpast,
    fun passed rest => (hstop _ _ _).trans (hnone passed rest)⟩
  have hfront := (hagree ⟨passed, '\n' :: rest⟩).trans (hnone passed rest)
  rw [hstop, hnone]
  cases hreturn : g.admits '\r' with
  | true => rw [told_many_front hreturn, hpast, hfront, Option.or_none]
  | false =>
    rw [Cursor.addReturns_feed] at hfront ⊢
    rw [told_many_cons_of_not_admits hreturn, hfront]

/-- A position that stays where it was, and is not between a return and its
feed. -/
theorem steady_position {here : Cursor → Bool} (h : ∀ c, p.ends c = if here c then [c] else [])
    (hsame : ∀ c : Cursor, here c.addReturns = here c)
    (hbetween : ∀ rest, here (Cursor.between rest) = false) (hagree : Agree tell tell') :
    Agree (p.told tell) (p.told tell') ∧ ∀ rest, p.told tell' (Cursor.between rest) = none := by
  refine ⟨fun c => ?_, fun rest => ?_⟩
  · rw [told_position h, told_position h, hsame, hagree]
  · rw [told_position h, hbetween, if_neg Bool.false_ne_true]

/-- The end of a line lies in front of its feed, with or without a return. -/
theorem settled_lineEnd (h : Stance.constant.Holds tell tell') :
    Settle (lineEnd.told tell) (lineEnd.told tell') := by
  obtain ⟨r, htell, htell'⟩ := h
  have hends (c : Cursor) : lineEnd.told tell c = if c.atLineEnd then r else none := by
    rw [told_position (fun _ => rfl), htell]
  have hends' (c : Cursor) : lineEnd.told tell' c = if c.atLineEnd then r else none := by
    rw [told_position (fun _ => rfl), htell']
  refine ⟨?_, fun passed rest => ?_⟩
  · rintro ⟨passed, ahead⟩ hhead
    rw [hends, hends']
    cases ahead with
    | nil => rfl
    | cons x rest =>
      have hx : x ≠ '\n' := fun heq => hhead (congrArg some heq)
      rw [Cursor.addReturns_cons hx]
      rfl
  · -- the line ends between the return and its feed
    have hfront : (Cursor.addReturns ⟨passed, '\n' :: rest⟩).atLineEnd = false := by
      rw [Cursor.addReturns_feed]
      rfl
    rw [hends, hends', hends', hends', hfront, if_neg Bool.false_ne_true, Option.or_none]
    rfl

/-- Alternatives of which the first is blocked settle what the second does. -/
theorem settle_alt (hp : Stance.blocked.Holds (p.told tell) (p.told tell'))
    (hq : Settle (q.told tell) (q.told tell')) :
    Settle ((alt p q).told tell) ((alt p q).told tell') := by
  obtain ⟨hagree, hbetween, hnone⟩ := hp
  refine ⟨fun c hc => ?_, fun passed rest => ?_⟩
  · rw [told_alt, told_alt, hagree, hq.1 c hc]
  · have hfront := (hagree ⟨passed, '\n' :: rest⟩).trans (hnone passed rest)
    simp only [told_alt, hbetween, hnone, hfront, Option.none_or, Option.or_assoc]
    rw [hq.2 passed rest]

theorem agree_alt (hp : Agree (p.told tell) (p.told tell'))
    (hq : Agree (q.told tell) (q.told tell')) :
    Agree ((alt p q).told tell) ((alt p q).told tell') := by
  intro c
  rw [told_alt, told_alt, hp, hq]

end Comparing

end Pattern

end DocCoverage
