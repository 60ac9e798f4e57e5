import DocCoverage.Pattern.Scan
/-!
# Patterns — declarations

A declaration is a name between a lead, such as the words that announce an
exported function, and a tail, such as the equals sign and the opening
parenthesis of an arrow function. The name is the longest run of word
characters behind the lead. Nothing is lost by that: every tail used here
begins with something that is not a word character, so no shorter run could
be followed by it.
-/

namespace DocCoverage

/-- What stands before and after a declared name. -/
structure Declaration where
  lead : Pattern
  tail : Pattern
deriving DecidableEq, Repr

namespace Declaration

/-- How far a declaration is matched. -/
inductive Stage where
  /-- What is left to be matched in front of the name. -/
  | lead (rest : Pattern)
  /-- Inside the name, whose characters are read backwards. -/
  | name (read : List Char)
  /-- What is left to be matched behind the name. -/
  | tail (name : List Char) (rest : Pattern)
deriving DecidableEq, Repr

namespace Stage

/-- Whether two stages go on alike, whatever the names. -/
def alike : Stage → Stage → Bool
  | lead p, lead q => p == q
  | name _, name _ => true
  | tail _ p, tail _ q => p == q
  | _, _ => false

end Stage

/-- The move into the name, or further on in it, if a word character is
ahead. -/
def nameMoves (read : List Char) : List Char → List (Move Stage (List Char))
  | [] => []
  | x :: _ => if Text.isWordChar x then [.pass (.name (x :: read))] else []

/-- What can be done behind the name. -/
def tailMoves (name : List Char) (rest : Pattern) (c : Cursor) :
    List (Move Stage (List Char)) :=
  (rest.moves c).map fun
    | .finish () => .finish name
    | .pass next => .pass (.tail name next)

/-- What can be done at a stage. -/
def moves (d : Declaration) : Stage → Cursor → List (Move Stage (List Char))
  | .lead rest, c => (rest.moves c).flatMap fun
    | .finish () => nameMoves [] c.ahead
    | .pass next => [.pass (.lead next)]
  | .name read, c =>
    match nameMoves read c.ahead with
    | [] => tailMoves read.reverse d.tail c
    | further => further
  | .tail name rest, c => tailMoves name rest c

/-- The search for a declaration. A match tells its name. -/
def search (d : Declaration) : Search Stage (List Char) := ⟨.lead d.lead, d.moves, Stage.alike⟩

/-- The names declared in the text, in reading order. -/
def names (d : Declaration) (text : List Char) : List (List Char) := d.search.all text

end Declaration

end DocCoverage
