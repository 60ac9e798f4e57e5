import DocCoverage.Document.Heading
import DocCoverage.Text.Blank
/-!
# Documents — real ones and stubs

A document is meaningful if it is long enough, holds no line that only
promises one, and has a heading or enough words. One that says it was
generated needs both.
-/

namespace DocCoverage

namespace Document

open Pattern

/-- The characters a document must have, blanks at its ends aside. -/
def fewestCharacters : Nat := 50

/-- More words than these make up for a missing heading. -/
def manyWords : Nat := 20

/-- A line that holds nothing but these words and an optional mark. Blanks
around them may reach over several lines. -/
def bareLine (words : Pattern) (mark : String) : Pattern :=
  inOrder [lineStart, maybeBlanks, words, maybeBlanks, optional (exactly mark), maybeBlanks,
    lineEnd]

/-- The lines that only promise a document. -/
def placeholders : List Pattern :=
  [ bareLine (phrase "TODO") ":",
    bareLine (phrase "STUB") ":",
    bareLine (phrase "Coming soon") ".",
    bareLine (inOrder [phrase "Documentation", blanks, phrase "coming", blanks, phrase "soon"]) ".",
    bareLine (phrase "Placeholder") ".",
    bareLine (phrase "TBD") ".",
    bareLine (phrase "WIP") "." ]

/-- A line that says the document was generated. -/
def generatedNotice : Pattern :=
  inOrder [phrase "Documentation Needed", many (.anyBut '\n'),
    phrase "This file was automatically generated"]

/-- Whether a document is real. -/
def isMeaningful (text : String) : Bool :=
  let body := Text.trim text.toList
  if body.length < fewestCharacters then false
  else if placeholders.any fun line => line.occursIn body then false
  else
    let hasHeading := Heading.any.occursIn body
    let isLong := decide (manyWords < Text.wordCount body)
    if generatedNotice.occursIn body then hasHeading && isLong else hasHeading || isLong

end Document

end DocCoverage
