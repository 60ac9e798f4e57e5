import DocCoverage.Proofs.Pattern.Returns
/-!
# Patterns — stances towards added returns

`Pattern.stance` computes, from what is known of what follows a pattern, what
is known in front of it, and `holds_told` says that it computes the truth. A
pattern in front of which line breaks tell the same as a whole occurs in a text
with returns if and only if it occurs in the text without
(`occursIn_addReturns`).
-/

namespace DocCoverage

open Text (addReturns)

namespace Pattern

variable {R : Type} {p q : Pattern} {g : Glyph} {tell : Cursor → Option R}

namespace Stance

/-- In front of one character, which may be a return or not, and a feed or
not. -/
def one : Bool → Bool → Stance → Option Stance
  | true, true, passing | true, true, constant => some steady
  | false, false, settled => none
  | false, false, _ => some blocked
  | _, _, _ => none

/-- In front of a run, which may go past returns or not, and past feeds or
not. -/
def many : Bool → Bool → Stance → Option Stance
  | true, true, agreed => none
  | true, true, settled | true, true, steady => some steady
  | true, true, _ => some passing
  | _, false, blocked => some blocked
  | false, false, settled => none
  | false, false, _ => some agreed
  | _, _, _ => none

/-- At the edge of a word, or at the beginning of a line. -/
def position : Stance → Option Stance
  | settled => none
  | blocked => some blocked
  | _ => some steady

/-- At the end of a line. -/
def lineEnd : Stance → Option Stance
  | constant => some settled
  | _ => none

/-- In front of alternatives. -/
def alt : Stance → Stance → Option Stance
  | settled, _ | _, settled => none
  | blocked, blocked => some blocked
  | blocked, agreed => some agreed
  | blocked, _ => some steady
  | _, _ => some agreed

end Stance

/-- The stance in front of a pattern, as far as it follows from the one behind
it. -/
def stance : Pattern → Stance → Option Stance
  | empty, s => some s
  | one g, s => Stance.one (g.admits '\r') (g.admits '\n') s
  | many g, s => Stance.many (g.admits '\r') (g.admits '\n') s
  | wordEdge, s => Stance.position s
  | lineStart, s => Stance.position s
  | lineEnd, s => Stance.lineEnd s
  | seq p q, s => (q.stance s).bind p.stance
  | alt p q, s => (p.stance s).bind fun a => (q.stance s).bind fun b => Stance.alt a b

section Sound

variable {tell' : Cursor → Option R} {s t a b : Stance}

theorem holds_one (h : Stance.one (g.admits '\r') (g.admits '\n') s = some t)
    (hs : s.Holds tell tell') : t.Holds ((one g).told tell) ((one g).told tell') := by
  cases hreturn : g.admits '\r' <;> cases hfeed : g.admits '\n' <;> rw [hreturn, hfeed] at h
  case true.true =>
    cases s <;> cases h
    case passing => exact steady_one hreturn hfeed hs
    case constant => exact steady_one hreturn hfeed hs.passing_of_constant
  case false.false =>
    have hne : s ≠ .settled := fun heq => by cases heq; cases h
    have ht : t = .blocked := by cases s <;> cases h <;> rfl
    exact ht ▸ blocked_one hreturn hfeed (hs.agree hne)
  all_goals cases s <;> cases h

theorem holds_many (h : Stance.many (g.admits '\r') (g.admits '\n') s = some t)
    (hs : s.Holds tell tell') : t.Holds ((many g).told tell) ((many g).told tell') := by
  cases hreturn : g.admits '\r' <;> cases hfeed : g.admits '\n' <;> rw [hreturn, hfeed] at h
  case true.true =>
    cases s <;> cases h
    case settled => exact steady_many hreturn hfeed hs
    case steady => exact steady_many hreturn hfeed hs.2
    case passing =>
      exact passing_many hreturn hfeed (hs.settle nofun) fun rest => .inr (hs.2 rest)
    case constant =>
      exact passing_many hreturn hfeed (hs.settle nofun)
        fun rest => .inr (hs.passing_of_constant.2 rest)
    case blocked =>
      exact passing_many hreturn hfeed (hs.settle nofun) fun rest => .inl (hs.2.1 rest)
  case true.false =>
    cases s <;> cases h
    exact blocked_many hfeed hs
  case false.false =>
    cases s <;> cases h
    case blocked => exact blocked_many hfeed hs
    all_goals exact agree_many_of_agree hreturn hfeed (hs.agree nofun)
  case false.true => cases s <;> cases h

/-- A position tells nothing where nothing is told behind it. -/
theorem holds_position {here : Cursor → Bool} (hends : ∀ c, p.ends c = if here c then [c] else [])
    (hsame : ∀ c : Cursor, here c.addReturns = here c)
    (hbetween : ∀ rest, here (Cursor.between rest) = false) (h : Stance.position s = some t)
    (hs : s.Holds tell tell') : t.Holds (p.told tell) (p.told tell') := by
  have hne : s ≠ .settled := fun heq => by cases heq; cases h
  obtain ⟨hagree, hnone⟩ := steady_position hends hsame hbetween (hs.agree hne)
  rcases eq_or_ne s .blocked with rfl | hblocked
  · cases h
    refine ⟨hagree, hnone, fun passed rest => ?_⟩
    rw [told_position hends, hs.2.2, ite_self]
  · have ht : t = .steady := by
      cases s
      case settled => exact absurd rfl hne
      case blocked => exact absurd rfl hblocked
      all_goals exact (Option.some.inj h).symm
    exact ht ▸ ⟨hagree, hagree.settle_of_none hnone⟩

theorem holds_lineEnd (h : Stance.lineEnd s = some t) (hs : s.Holds tell tell') :
    t.Holds (lineEnd.told tell) (lineEnd.told tell') := by
  cases s <;> cases h
  exact settled_lineEnd hs

theorem holds_alt (h : Stance.alt a b = some t) (ha : a.Holds (p.told tell) (p.told tell'))
    (hb : b.Holds (q.told tell) (q.told tell')) :
    t.Holds ((alt p q).told tell) ((alt p q).told tell') := by
  have hane : a ≠ .settled := fun heq => by cases heq; cases h
  have hbne : b ≠ .settled := fun heq => by cases heq; cases a <;> cases h
  have hagree := agree_alt (ha.agree hane) (hb.agree hbne)
  rcases eq_or_ne a .blocked with rfl | hblocked
  · cases b with
    | settled => cases h
    | agreed =>
      cases h
      exact hagree
    | blocked =>
      cases h
      refine ⟨hagree, fun rest => ?_, fun passed rest => ?_⟩
      · rw [told_alt, ha.2.1, hb.2.1, Option.or_none]
      · rw [told_alt, ha.2.2, hb.2.2, Option.or_none]
    | steady | passing | constant =>
      cases h
      exact ⟨hagree, settle_alt ha (hb.settle nofun)⟩
  · have ht : t = .agreed := by
      cases a
      case settled => exact absurd rfl hane
      case blocked => exact absurd rfl hblocked
      all_goals cases b <;> cases h <;> rfl
    exact ht ▸ hagree

/-- **The stance in front of a pattern is true** if the one behind it is. -/
theorem holds_told (h : p.stance s = some t) (hs : s.Holds tell tell') :
    t.Holds (p.told tell) (p.told tell') := by
  induction p generalizing s t tell tell' with
  | empty =>
    cases h
    rw [told_empty, told_empty]
    exact hs
  | one g => exact holds_one h hs
  | many g => exact holds_many h hs
  | wordEdge =>
    exact holds_position (fun _ => rfl) Cursor.atWordEdge_addReturns Cursor.atWordEdge_between h hs
  | lineStart =>
    exact holds_position (fun _ => rfl) Cursor.atLineStart_addReturns Cursor.atLineStart_between h
      hs
  | lineEnd => exact holds_lineEnd h hs
  | seq p q ihp ihq =>
    obtain ⟨middle, hq, hp⟩ := Option.bind_eq_some_iff.mp h
    rw [told_seq, told_seq]
    exact ihp hp (ihq hq hs)
  | alt p q ihp ihq =>
    obtain ⟨a, hp, hrest⟩ := Option.bind_eq_some_iff.mp h
    obtain ⟨b, hq, halt⟩ := Option.bind_eq_some_iff.mp hrest
    exact holds_alt halt (ihp hp hs) (ihq hq hs)

end Sound

/-! ## Whether a pattern occurs -/

section Occurring

variable {t : Stance}

/-- That there is a match from a place. -/
def here (p : Pattern) : Cursor → Option Unit := p.told fun _ => some ()

theorem isSome_head?_ends (p : Pattern) (passed : Option Char) (text : List Char) :
    (p.search.ends p.search.start passed text).head?.isSome = (p.here ⟨passed, text⟩).isSome := by
  have hstart : p.search.start = p := rfl
  rw [hstart, ends_search, here, told]
  cases p.ends ⟨passed, text⟩ <;> rfl

theorem isSome_firstFrom_nil (p : Pattern) (passed : Option Char) :
    (p.search.firstFrom passed []).isSome = (p.here ⟨passed, []⟩).isSome :=
  isSome_head?_ends p passed []

theorem isSome_firstFrom_cons (p : Pattern) (passed : Option Char) (x : Char) (rest : List Char) :
    (p.search.firstFrom passed (x :: rest)).isSome =
      ((p.here ⟨passed, x :: rest⟩).isSome || (p.search.firstFrom (some x) rest).isSome) := by
  rw [Search.firstFrom, Option.isSome_or, isSome_head?_ends, Option.isSome_map]

/-- A match from a place is one that begins there or later. -/
theorem isSome_firstFrom_of_here {passed : Option Char} {text : List Char}
    (h : (p.here ⟨passed, text⟩).isSome = true) :
    (p.search.firstFrom passed text).isSome = true := by
  cases text with
  | nil => rwa [isSome_firstFrom_nil]
  | cons x rest => rw [isSome_firstFrom_cons, h, Bool.true_or]

theorem isSome_firstFrom_addReturns (h : Settle p.here p.here) (passed : Option Char)
    (text : List Char) :
    (p.search.firstFrom passed (addReturns text)).isSome =
      (p.search.firstFrom passed text).isSome := by
  induction text generalizing passed with
  | nil => rfl
  | cons x rest ih =>
    by_cases hx : x = '\n'
    · subst hx
      have hbreak := congrArg Option.isSome (h.2 passed rest)
      simp only [Option.isSome_or, Cursor.addReturns_feed, Cursor.between] at hbreak
      rw [Text.addReturns_feed, isSome_firstFrom_cons, isSome_firstFrom_cons,
        isSome_firstFrom_cons, ih]
      -- a match from behind the break is found in both texts
      cases hbehind : (p.here (Cursor.addReturns ⟨some '\n', rest⟩)).isSome with
      | true =>
        have hlater := isSome_firstFrom_of_here hbehind
        rw [← ih, hlater, Bool.or_true, Bool.or_true, Bool.or_true]
      | false =>
        rw [hbehind, Bool.false_or, Bool.false_or] at hbreak
        rw [← hbreak, ← Bool.or_assoc, Bool.or_comm (Option.isSome _)]
    · have hhere := h.1 ⟨passed, x :: rest⟩ fun heq => hx (Option.some.inj heq)
      rw [Cursor.addReturns_cons hx] at hhere
      rw [Text.addReturns_cons hx, isSome_firstFrom_cons, isSome_firstFrom_cons, hhere, ih]

/-- **A pattern occurs where it occurred** if line breaks tell the same as a
whole in front of it. -/
theorem occursIn_addReturns (h : p.stance .constant = some t) (ht : t ≠ .agreed)
    (text : List Char) : p.occursIn (addReturns text) = p.occursIn text := by
  have hconstant : Stance.constant.Holds (fun _ => some ()) fun _ => some () :=
    ⟨some (), fun _ => rfl, fun _ => rfl⟩
  have hsettle : Settle p.here p.here := (holds_told h hconstant).settle ht
  rw [occursIn, occursIn, Search.first?_eq p.isFair_search, Search.first?_eq p.isFair_search]
  exact isSome_firstFrom_addReturns hsettle none text

end Occurring

end Pattern

end DocCoverage
