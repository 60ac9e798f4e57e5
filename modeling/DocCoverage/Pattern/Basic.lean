import DocCoverage.Text.Blank
import DocCoverage.Text.Letter
import DocCoverage.Text.WordChar
/-!
# Patterns — what they are and where they end

A pattern describes a stretch of text: single characters, runs of them,
positions such as the edge of a word, and sequences and alternatives of
patterns. Matching starts at a cursor, a place in a text, and `Pattern.ends`
lists every cursor at which a match from there can end. The list is in order
of preference: a run prefers to be long and an alternative prefers its first
branch, so the head of the list is the end of the preferred match.
-/

namespace DocCoverage

/-- What a single position of a pattern admits. -/
inductive Glyph where
  /-- This character and no other. -/
  | exactly (c : Char)
  /-- This letter in either case. -/
  | letter (c : Char)
  /-- Any blank. -/
  | blank
  /-- Any word character. -/
  | word
  /-- Any character but this one. -/
  | anyBut (c : Char)
deriving DecidableEq, Repr

/-- Whether the position admits the character. -/
def Glyph.admits : Glyph → Char → Bool
  | .exactly c, x => x == c
  | .letter c, x => Text.sameLetter c x
  | .blank, x => Text.isBlank x
  | .word, x => Text.isWordChar x
  | .anyBut c, x => x != c

/-- A description of stretches of text. -/
inductive Pattern where
  /-- The empty stretch. -/
  | empty
  /-- One character. -/
  | one (g : Glyph)
  /-- A run of characters, as long as it can be and possibly empty. -/
  | many (g : Glyph)
  /-- The empty stretch between a word character and something else. -/
  | wordEdge
  /-- The empty stretch at the beginning of a line. -/
  | lineStart
  /-- The empty stretch at the end of a line. -/
  | lineEnd
  /-- One stretch and then another. -/
  | seq (first second : Pattern)
  /-- One stretch or, failing that, another. -/
  | alt (first second : Pattern)
deriving DecidableEq, Repr

/-- A place in a text: the character passed last, if there is one, and all
that is still ahead. -/
structure Cursor where
  passed : Option Char
  ahead : List Char
deriving DecidableEq, Repr

namespace Cursor

/-- Exactly one of the two neighbours is a word character. -/
def atWordEdge (c : Cursor) : Bool :=
  c.passed.any Text.isWordChar != c.ahead.head?.any Text.isWordChar

/-- A line begins at the start of the text and after every line feed. -/
def atLineStart (c : Cursor) : Bool := c.passed.all (· == '\n')

/-- A line ends at the end of the text and before every line feed. -/
def atLineEnd (c : Cursor) : Bool := c.ahead.head?.all (· == '\n')

end Cursor

namespace Pattern

/-- The ends of a run of admitted characters, the longest run first. -/
def runEnds (g : Glyph) (passed : Option Char) : List Char → List Cursor
  | [] => [⟨passed, []⟩]
  | x :: rest =>
    if g.admits x then runEnds g (some x) rest ++ [⟨passed, x :: rest⟩]
    else [⟨passed, x :: rest⟩]

/-- The ends of one admitted character. -/
def stepEnds (g : Glyph) : List Char → List Cursor
  | [] => []
  | x :: rest => if g.admits x then [⟨some x, rest⟩] else []

/-- Every cursor at which a match that begins at `c` can end, the preferred
one first. -/
def ends : Pattern → Cursor → List Cursor
  | empty, c => [c]
  | one g, c => stepEnds g c.ahead
  | many g, c => runEnds g c.passed c.ahead
  | wordEdge, c => if c.atWordEdge then [c] else []
  | lineStart, c => if c.atLineStart then [c] else []
  | lineEnd, c => if c.atLineEnd then [c] else []
  | seq p q, c => (p.ends c).flatMap q.ends
  | alt p q, c => p.ends c ++ q.ends c

/-! ## Composed patterns -/

/-- A run of at least one admitted character. -/
def atLeastOne (g : Glyph) : Pattern := seq (one g) (many g)

/-- The stretch if it is there. -/
def optional (p : Pattern) : Pattern := alt p empty

/-- One pattern after the other. -/
def inOrder : List Pattern → Pattern
  | [] => empty
  | [p] => p
  | p :: more => seq p (inOrder more)

/-- The first pattern that fits. -/
def firstOf : List Pattern → Pattern
  | [] => empty
  | [p] => p
  | p :: more => alt p (firstOf more)

/-- The characters of a string, one by one. -/
def exactly (s : String) : Pattern := inOrder (s.toList.map fun c => one (.exactly c))

/-- The characters of a string in either case. -/
def phrase (s : String) : Pattern := inOrder (s.toList.map fun c => one (.letter c))

/-- Blanks that must be there. -/
def blanks : Pattern := atLeastOne .blank

/-- Blanks that may be there. -/
def maybeBlanks : Pattern := many .blank

end Pattern

end DocCoverage
