import DocCoverage.Pattern.Search
/-!
# Patterns — scanning a text

A pattern is matched character by character: `Pattern.moves` says what it
can do at a place, and behind the next character another pattern is left to
be matched. `Pattern.occursIn` asks whether a match begins anywhere.
`Pattern.count` counts the matches that a reader meets who takes the
preferred match at the first place where one begins and goes on behind it.
-/

namespace DocCoverage

namespace Pattern

/-- A pattern and then another, without an empty one in front. -/
def andThen : Pattern → Pattern → Pattern
  | empty, q => q
  | p, q => seq p q

/-- Passing the next character, if it is admitted, and going on with a
pattern. -/
def passing (g : Glyph) (next : Pattern) : List Char → List (Move Pattern Unit)
  | [] => []
  | x :: _ => if g.admits x then [.pass next] else []

/-- What a pattern can do at a place, the preferred move first. -/
def moves : Pattern → Cursor → List (Move Pattern Unit)
  | empty, _ => [.finish ()]
  | one g, c => passing g empty c.ahead
  | many g, c => passing g (many g) c.ahead ++ [.finish ()]
  | wordEdge, c => if c.atWordEdge then [.finish ()] else []
  | lineStart, c => if c.atLineStart then [.finish ()] else []
  | lineEnd, c => if c.atLineEnd then [.finish ()] else []
  | seq p q, c => (p.moves c).flatMap fun
    | .finish () => q.moves c
    | .pass next => [.pass (next.andThen q)]
  | alt p q, c => p.moves c ++ q.moves c

/-- The search for a pattern. -/
def search (p : Pattern) : Search Pattern Unit := ⟨p, moves, fun a b => a == b⟩

/-- Whether a match begins anywhere in the text. -/
def occursIn (p : Pattern) (text : List Char) : Bool := (p.search.first? none text).isSome

/-- The number of non-overlapping matches in the text. -/
def count (p : Pattern) (text : List Char) : Nat := (p.search.all text).length

end Pattern

end DocCoverage
