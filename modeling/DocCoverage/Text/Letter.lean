/-!
# Text — letters of either case

Keywords and headings are compared without regard to case. Every keyword
here is ASCII, so only the characters whose case variants reach an ASCII
letter matter: the capitals A to Z, the long s, the Kelvin sign, and the
capital I with a dot, which is written in lower case as an i and a
combining dot above.
-/

namespace DocCoverage

namespace Text

/-- A capital A to Z becomes the small letter; anything else stays. -/
def lowerAscii (c : Char) : Char :=
  if 'A' ≤ c ∧ c ≤ 'Z' then Char.ofNat (c.toNat + 32) else c

/-- Simple case folding, as far as it ends at an ASCII letter: the long s
folds to s and the Kelvin sign to k. -/
def foldCase (c : Char) : Char :=
  if c = '\u017f' then 's' else if c = '\u212a' then 'k' else lowerAscii c

/-- Two characters that are the same letter in any case. -/
def sameLetter (a b : Char) : Bool := foldCase a == foldCase b

/-- The lower case of a character, as far as ASCII letters arise in it. -/
def lower (c : Char) : List Char :=
  if c = '\u0130' then ['i', '\u0307']
  else if c = '\u212a' then ['k']
  else [lowerAscii c]

/-- A text in lower case, as far as an ASCII keyword can tell. -/
def lowered (text : List Char) : List Char := text.flatMap lower

end Text

end DocCoverage
