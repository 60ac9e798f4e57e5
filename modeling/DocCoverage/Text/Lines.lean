import DocCoverage.Text.Pieces
/-!
# Text — lines

A line ends at a line feed, and a carriage return right before that line
feed belongs to the ending. What follows the last line feed is a line too,
unless it is empty.
-/

namespace DocCoverage

namespace Text

/-- A line without the carriage return of its ending. -/
def withoutReturn (line : List Char) : List Char :=
  if line.getLast? = some '\r' then line.dropLast else line

/-- The pieces between line feeds, read as lines: each but the last loses
its carriage return, and the last counts only if it holds a character. -/
def linesOfPieces : List (List Char) → List (List Char)
  | [] => []
  | [last] => if last.isEmpty then [] else [last]
  | piece :: more => withoutReturn piece :: linesOfPieces more

/-- The lines of a text. -/
def lines (text : List Char) : List (List Char) := linesOfPieces (pieces (· == '\n') text)

/-- The number of lines of a text. -/
def lineCount (text : List Char) : Nat := (lines text).length

end Text

end DocCoverage
