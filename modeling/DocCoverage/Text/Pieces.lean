/-!
# Text — cutting at separators

Words, lines, path segments and dotted keys are all pieces of a text between
separators. Cutting keeps the empty pieces, so joining the pieces with the
separator gives the text back.
-/

namespace DocCoverage

namespace Text

/-- Put a character in front of the first piece. -/
def consFirst (c : Char) : List (List Char) → List (List Char)
  | [] => [[c]]
  | piece :: more => (c :: piece) :: more

/-- The pieces between the separators: always one more than there are
separators. -/
def pieces (isSep : Char → Bool) : List Char → List (List Char)
  | [] => [[]]
  | c :: rest => if isSep c then [] :: pieces isSep rest else consFirst c (pieces isSep rest)

/-- Texts joined by a separator. -/
def joined (sep : List Char) : List (List Char) → List Char
  | [] => []
  | [piece] => piece
  | piece :: more => piece ++ sep ++ joined sep more

/-- The pieces of a string between the occurrences of a character. -/
def cutAt (sep : Char) (s : String) : List String :=
  (pieces (· == sep) s.toList).map String.ofList

end Text

end DocCoverage
