import DocCoverage.Pattern.Meaning
import Mathlib.Data.List.Forall2
/-!
# Patterns — the stretches that they describe

A pattern describes stretches of text, each between the character before it
and the text behind it. A match ends behind a stretch that is described, and
nowhere else (`mem_ends_iff`), so that a pattern occurs in a text that holds
such a stretch (`occursIn_iff_describes`). What a composed pattern describes
is read off its parts.
-/

namespace DocCoverage

namespace Cursor

variable {c e : Cursor} {passed : Option Char} {x : Char} {text stretch more : List Char}

/-- Whether a place is the one behind a stretch that begins here. -/
def LeadsTo (c : Cursor) (stretch : List Char) (e : Cursor) : Prop :=
  c.ahead = stretch ++ e.ahead ∧ e.passed = stretch.getLast?.or c.passed

theorem leadsTo_nil : c.LeadsTo [] e ↔ e = c := by
  obtain ⟨passed, ahead⟩ := c
  obtain ⟨passed', ahead'⟩ := e
  simp [LeadsTo, and_comm, eq_comm]

theorem leadsTo_cons : (Cursor.mk passed text).LeadsTo (x :: stretch) e ↔
    ∃ rest, text = x :: rest ∧ (Cursor.mk (some x) rest).LeadsTo stretch e := by
  have hlast := Search.getLast?_cons_or x stretch passed
  constructor
  · rintro ⟨htext, hpassed⟩
    exact ⟨stretch ++ e.ahead, htext, rfl, hpassed.trans hlast⟩
  · rintro ⟨rest, rfl, hrest, hpassed⟩
    exact ⟨congrArg (x :: ·) hrest, hpassed.trans hlast.symm⟩

theorem leadsTo_append : c.LeadsTo (stretch ++ more) e ↔
    ∃ middle, c.LeadsTo stretch middle ∧ middle.LeadsTo more e := by
  have hlast : (stretch ++ more).getLast?.or c.passed =
      more.getLast?.or (stretch.getLast?.or c.passed) := by
    rw [List.getLast?_append, Option.or_assoc]
  constructor
  · rintro ⟨hahead, hpassed⟩
    exact ⟨⟨stretch.getLast?.or c.passed, more ++ e.ahead⟩,
      ⟨by rw [hahead, List.append_assoc], rfl⟩, rfl, hpassed.trans hlast⟩
  · rintro ⟨middle, ⟨hahead, hmiddle⟩, hmore, hpassed⟩
    exact ⟨by rw [hahead, hmore, List.append_assoc], by rw [hpassed, hmiddle, hlast]⟩

end Cursor

namespace Pattern

variable {p q : Pattern} {ps : List Pattern} {g : Glyph} {c e : Cursor} {passed : Option Char}
  {text stretch back : List Char}

/-- Whether a pattern describes a stretch that has this character before it,
if it has one, and this text behind it. -/
def Describes : Pattern → Option Char → List Char → List Char → Prop
  | empty, _, stretch, _ => stretch = []
  | one g, _, stretch, _ => ∃ x, stretch = [x] ∧ g.admits x = true
  | many g, _, stretch, _ => ∀ x ∈ stretch, g.admits x = true
  | wordEdge, passed, stretch, back => stretch = [] ∧ (Cursor.mk passed back).atWordEdge = true
  | lineStart, passed, stretch, back => stretch = [] ∧ (Cursor.mk passed back).atLineStart = true
  | lineEnd, passed, stretch, back => stretch = [] ∧ (Cursor.mk passed back).atLineEnd = true
  | seq p q, passed, stretch, back => ∃ first second, stretch = first ++ second ∧
      p.Describes passed first (second ++ back) ∧
        q.Describes (first.getLast?.or passed) second back
  | alt p q, passed, stretch, back =>
    p.Describes passed stretch back ∨ q.Describes passed stretch back

/-! ## Where a match ends -/

theorem mem_runEnds_iff : e ∈ runEnds g passed text ↔
    ∃ stretch, (Cursor.mk passed text).LeadsTo stretch e ∧ ∀ x ∈ stretch, g.admits x = true := by
  induction text generalizing passed with
  | nil =>
    rw [runEnds, List.mem_singleton]
    constructor
    · rintro rfl
      exact ⟨[], Cursor.leadsTo_nil.mpr rfl, List.forall_mem_nil _⟩
    · rintro ⟨stretch, hleads, -⟩
      obtain ⟨rfl, -⟩ := List.nil_eq_append_iff.mp hleads.1
      exact Cursor.leadsTo_nil.mp hleads
  | cons first rest ih =>
    have hstop : (∃ stretch, (Cursor.mk passed (first :: rest)).LeadsTo stretch e ∧
          ∀ x ∈ stretch, g.admits x = true) ↔
        e = ⟨passed, first :: rest⟩ ∨ g.admits first = true ∧ e ∈ runEnds g (some first) rest := by
      rw [ih]
      constructor
      · rintro ⟨stretch, hleads, hadmits⟩
        cases stretch with
        | nil => exact .inl (Cursor.leadsTo_nil.mp hleads)
        | cons x stretch =>
          obtain ⟨_, hcons, hleads⟩ := Cursor.leadsTo_cons.mp hleads
          obtain ⟨rfl, rfl⟩ := List.cons_eq_cons.mp hcons
          obtain ⟨hfirst, hadmits⟩ := List.forall_mem_cons.mp hadmits
          exact .inr ⟨hfirst, stretch, hleads, hadmits⟩
      · rintro (rfl | ⟨hfirst, stretch, hleads, hadmits⟩)
        · exact ⟨[], Cursor.leadsTo_nil.mpr rfl, List.forall_mem_nil _⟩
        · exact ⟨first :: stretch, Cursor.leadsTo_cons.mpr ⟨rest, rfl, hleads⟩,
            List.forall_mem_cons.mpr ⟨hfirst, hadmits⟩⟩
    rw [hstop, runEnds]
    split
    next hadmits => simp [hadmits, or_comm]
    next hadmits => simp [hadmits]

/-- A position that is asked for is described by nothing at all. -/
theorem mem_here_iff (here : Cursor → Bool) : (e ∈ if here c then [c] else []) ↔
    ∃ stretch, c.LeadsTo stretch e ∧ stretch = [] ∧ here ⟨c.passed, e.ahead⟩ = true := by
  constructor
  · intro h
    split at h
    next hhere =>
      obtain rfl := List.mem_singleton.mp h
      exact ⟨[], Cursor.leadsTo_nil.mpr rfl, rfl, hhere⟩
    next => cases h
  · rintro ⟨_, hleads, rfl, hhere⟩
    obtain rfl := Cursor.leadsTo_nil.mp hleads
    rw [if_pos hhere]
    exact List.mem_singleton_self _

/-- **A match ends behind the stretches that the pattern describes.** -/
theorem mem_ends_iff : e ∈ p.ends c ↔
    ∃ stretch, c.LeadsTo stretch e ∧ p.Describes c.passed stretch e.ahead := by
  induction p generalizing c e with
  | empty =>
    rw [ends, List.mem_singleton]
    constructor
    · exact fun h => ⟨[], Cursor.leadsTo_nil.mpr h, rfl⟩
    · rintro ⟨_, hleads, rfl⟩
      exact Cursor.leadsTo_nil.mp hleads
  | one g =>
    obtain ⟨passed, ahead⟩ := c
    constructor
    · intro h
      cases ahead with
      | nil => cases h
      | cons x rest =>
        simp only [ends, stepEnds] at h
        split at h
        next hadmits =>
          obtain rfl := List.mem_singleton.mp h
          exact ⟨[x], Cursor.leadsTo_cons.mpr ⟨rest, rfl, Cursor.leadsTo_nil.mpr rfl⟩, x, rfl, hadmits⟩
        next => cases h
    · rintro ⟨_, hleads, x, rfl, hadmits⟩
      obtain ⟨rest, rfl, hbehind⟩ := Cursor.leadsTo_cons.mp hleads
      rw [Cursor.leadsTo_nil.mp hbehind]
      simp [ends, stepEnds, hadmits]
  | many g => exact mem_runEnds_iff
  | wordEdge => exact mem_here_iff Cursor.atWordEdge
  | lineStart => exact mem_here_iff Cursor.atLineStart
  | lineEnd => exact mem_here_iff Cursor.atLineEnd
  | seq p q ihp ihq =>
    rw [ends, List.mem_flatMap]
    constructor
    · rintro ⟨middle, hmiddle, hend⟩
      obtain ⟨first, hfirst, hp⟩ := ihp.mp hmiddle
      obtain ⟨second, hsecond, hq⟩ := ihq.mp hend
      rw [hsecond.1] at hp
      rw [hfirst.2] at hq
      exact ⟨first ++ second, Cursor.leadsTo_append.mpr ⟨middle, hfirst, hsecond⟩, first, second,
        rfl, hp, hq⟩
    · rintro ⟨_, hleads, first, second, rfl, hp, hq⟩
      obtain ⟨middle, hfirst, hsecond⟩ := Cursor.leadsTo_append.mp hleads
      rw [← hsecond.1] at hp
      rw [← hfirst.2] at hq
      exact ⟨middle, ihp.mpr ⟨first, hfirst, hp⟩, ihq.mpr ⟨second, hsecond, hq⟩⟩
  | alt p q ihp ihq =>
    rw [ends, List.mem_append, ihp, ihq, ← exists_or]
    exact exists_congr fun stretch => and_or_left.symm

/-- **A pattern occurs in a text that holds a stretch it describes.** -/
theorem occursIn_iff_describes : p.occursIn text = true ↔
    ∃ front stretch back, text = front ++ stretch ++ back ∧
      p.Describes front.getLast? stretch back := by
  rw [occursIn_iff]
  constructor
  · rintro ⟨front, ahead, rfl, hends⟩
    obtain ⟨e, he⟩ := List.exists_mem_of_ne_nil _ hends
    obtain ⟨stretch, hleads, hdescribes⟩ := mem_ends_iff.mp he
    exact ⟨front, stretch, e.ahead, by rw [List.append_assoc, ← hleads.1], hdescribes⟩
  · rintro ⟨front, stretch, back, rfl, hdescribes⟩
    have hend : ⟨stretch.getLast?.or front.getLast?, back⟩ ∈
        p.ends ⟨front.getLast?, stretch ++ back⟩ :=
      mem_ends_iff.mpr ⟨stretch, ⟨rfl, rfl⟩, hdescribes⟩
    exact ⟨front, stretch ++ back, List.append_assoc _ _ _, List.ne_nil_of_mem hend⟩

/-! ## Composed patterns -/

theorem describes_inOrder_cons : (inOrder (p :: ps)).Describes passed stretch back ↔
    ∃ first second, stretch = first ++ second ∧ p.Describes passed first (second ++ back) ∧
      (inOrder ps).Describes (first.getLast?.or passed) second back := by
  cases ps with
  | nil =>
    constructor
    · exact fun h => ⟨stretch, [], (List.append_nil _).symm, h, rfl⟩
    · rintro ⟨first, second, rfl, hp, rfl⟩
      rwa [List.append_nil]
  | cons q more => exact Iff.rfl

theorem describes_firstOf (hne : ps ≠ []) : (firstOf ps).Describes passed stretch back ↔
    ∃ p ∈ ps, p.Describes passed stretch back := by
  induction ps with
  | nil => exact absurd rfl hne
  | cons p more ih =>
    cases more with
    | nil => simp [firstOf]
    | cons q more =>
      rw [List.exists_mem_cons_iff, ← ih (List.cons_ne_nil q more)]
      exact Iff.rfl

theorem describes_atLeastOne : (atLeastOne g).Describes passed stretch back ↔
    stretch ≠ [] ∧ ∀ x ∈ stretch, g.admits x = true := by
  constructor
  · rintro ⟨_, rest, rfl, ⟨x, rfl, hx⟩, hrest⟩
    exact ⟨List.cons_ne_nil _ _, List.forall_mem_cons.mpr ⟨hx, hrest⟩⟩
  · rintro ⟨hne, hadmits⟩
    obtain ⟨x, rest, rfl⟩ := List.exists_cons_of_ne_nil hne
    obtain ⟨hx, hrest⟩ := List.forall_mem_cons.mp hadmits
    exact ⟨[x], rest, rfl, ⟨x, rfl, hx⟩, hrest⟩

/-- A text of exact characters describes itself. -/
theorem describes_exactly {s : String} :
    (exactly s).Describes passed stretch back ↔ stretch = s.toList := by
  rw [exactly]
  induction s.toList generalizing passed stretch with
  | nil => exact Iff.rfl
  | cons first rest ih =>
    rw [List.map_cons, describes_inOrder_cons]
    constructor
    · rintro ⟨_, second, rfl, ⟨x, rfl, hx⟩, hrest⟩
      rw [ih.mp hrest, eq_of_beq hx, List.singleton_append]
    · rintro rfl
      exact ⟨[first], rest, rfl, ⟨first, rfl, beq_self_eq_true first⟩, ih.mpr rfl⟩

theorem describes_optional : (Pattern.optional p).Describes passed stretch back ↔
    p.Describes passed stretch back ∨ stretch = [] := Iff.rfl

/-- A phrase describes its letters, each in either case. -/
theorem describes_phrase {s : String} : (phrase s).Describes passed stretch back ↔
    List.Forall₂ (fun a b => Text.sameLetter a b = true) s.toList stretch := by
  rw [phrase]
  induction s.toList generalizing passed stretch with
  | nil => simp [inOrder, Describes]
  | cons letter rest ih =>
    rw [List.map_cons, describes_inOrder_cons]
    constructor
    · rintro ⟨_, second, rfl, ⟨x, rfl, hx⟩, hrest⟩
      exact .cons hx (ih.mp hrest)
    · rintro (_ | ⟨hx, hrest⟩)
      exact ⟨_, _, rfl, ⟨_, rfl, hx⟩, ih.mpr hrest⟩

end Pattern

end DocCoverage
