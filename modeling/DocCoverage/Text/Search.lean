/-!
# Text — looking for one text in another
-/

namespace DocCoverage

namespace Text

/-- Whether `needle` occurs in the text, as a run of consecutive characters. -/
def occursIn (needle : List Char) : List Char → Bool
  | [] => needle.isEmpty
  | c :: rest => needle.isPrefixOf (c :: rest) || occursIn needle rest

/-- The text with every `c` deleted. -/
def without (c : Char) (text : List Char) : List Char := text.filter (· != c)

end Text

end DocCoverage
