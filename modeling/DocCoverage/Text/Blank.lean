import DocCoverage.Text.Pieces
/-!
# Text — blanks and words

A blank is a character with the Unicode property White_Space. Texts are
trimmed of blanks, and a word is a maximal run of characters that are not
blank: a non-empty piece between blanks.
-/

namespace DocCoverage

namespace Text

/-- The Unicode property White_Space. -/
def isBlank (c : Char) : Bool :=
  let n := c.toNat
  (9 ≤ n && n ≤ 13) || n == 0x20 || n == 0x85 || n == 0xA0 || n == 0x1680 ||
    (0x2000 ≤ n && n ≤ 0x200A) || n == 0x2028 || n == 0x2029 || n == 0x202F ||
    n == 0x205F || n == 0x3000

/-- The text without the blanks at its two ends. -/
def trim (text : List Char) : List Char :=
  ((text.dropWhile isBlank).reverse.dropWhile isBlank).reverse

/-- A string without the blanks at its two ends. -/
def trimmed (s : String) : String := String.ofList (trim s.toList)

/-- The words of a text. -/
def words (text : List Char) : List (List Char) :=
  (pieces isBlank text).filter fun piece => !piece.isEmpty

/-- The number of words of a text. -/
def wordCount (text : List Char) : Nat := (words text).length

end Text

end DocCoverage
