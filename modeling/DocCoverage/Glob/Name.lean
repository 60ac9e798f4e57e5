/-!
# Globs — patterns for one name

A name pattern is a list of elements: a character, any character, any text,
or a character from a class or outside of it. `ofText?` reads one. A class
begins with a bracket, an exclamation mark behind it turns it around, and
its first character belongs to it whatever it is. A class that is not closed
makes the pattern invalid, and so do two asterisks in a row.
-/

namespace DocCoverage

/-- The characters from the first to the last. -/
structure CharRange where
  first : Char
  last : Char
deriving DecidableEq, Repr

/-- Whether a character is in one of the ranges. -/
def CharRange.covers (ranges : List CharRange) (c : Char) : Bool :=
  ranges.any fun range => range.first ≤ c && c ≤ range.last

/-- An element of a name pattern. -/
inductive NameElement where
  /-- This character. -/
  | char (c : Char)
  /-- Any one character. -/
  | anyChar
  /-- Any text, the empty one included. -/
  | anyText
  /-- One character from the ranges. -/
  | within (ranges : List CharRange)
  /-- One character outside of the ranges. -/
  | outside (ranges : List CharRange)
deriving DecidableEq, Repr

/-- A pattern for one name. -/
abbrev NamePattern := List NameElement

namespace NamePattern

/-! ## Matching -/

/-- For every end of the text, from the whole to the empty one, whether it
is empty. -/
def emptyEnds : List Char → List Bool
  | [] => [true]
  | _ :: rest => false :: emptyEnds rest

/-- For every end of the text, whether it begins with a character that is
admitted and goes on with an end of the marked ones. -/
def oneThen (admits : Char → Bool) : List Char → List Bool → List Bool
  | c :: rest, _ :: later => (admits c && later.headD false) :: oneThen admits rest later
  | _, _ => [false]

/-- For every end of a text, whether it or an end of it is marked. -/
def anyThen : List Bool → List Bool
  | [] => []
  | here :: later =>
    let later := anyThen later
    (here || later.headD false) :: later

/-- For every end of the text, from the whole to the empty one, whether it
matches the pattern. -/
def matchedEnds : NamePattern → List Char → List Bool
  | [], text => emptyEnds text
  | .char c :: more, text => oneThen (· == c) text (matchedEnds more text)
  | .anyChar :: more, text => oneThen (fun _ => true) text (matchedEnds more text)
  | .anyText :: more, text => anyThen (matchedEnds more text)
  | .within ranges :: more, text => oneThen (CharRange.covers ranges) text (matchedEnds more text)
  | .outside ranges :: more, text =>
    oneThen (fun c => !CharRange.covers ranges c) text (matchedEnds more text)

/-- Whether a name matches the pattern. -/
def admits (pattern : NamePattern) (name : List Char) : Bool :=
  (matchedEnds pattern name).headD false

/-! ## Reading -/

/-- The ranges in a class: two characters with a hyphen between them, or one
character alone. -/
def ranges : List Char → List CharRange
  | first :: '-' :: last :: rest => ⟨first, last⟩ :: ranges rest
  | c :: rest => ⟨c, c⟩ :: ranges rest
  | [] => []

/-- The members of a class that begins with this character, up to the
closing bracket, and how many characters they and the bracket take. -/
def members? (first : Char) (rest : List Char) : Option (List CharRange × Nat) :=
  let inside := rest.takeWhile (· != ']')
  if inside.length < rest.length then some (ranges (first :: inside), inside.length + 2) else none

/-- The class behind an opening bracket, and how many characters it takes
up to its closing bracket. -/
def classAhead? : List Char → Option (NameElement × Nat)
  | '!' :: first :: rest => (members? first rest).map fun (ranges, n) => (.outside ranges, n + 1)
  | ['!'] => none
  | first :: rest => (members? first rest).map fun (ranges, n) => (.within ranges, n)
  | [] => none

/-- Read the elements ahead, of which the first `covered` characters belong
to the class before. -/
def readFrom? (covered : Nat) : List Char → Option NamePattern
  | [] => some []
  | c :: rest =>
    match covered with
    | n + 1 => readFrom? n rest
    | 0 =>
      match c with
      | '?' => (readFrom? 0 rest).map (.anyChar :: ·)
      | '*' => if rest.head? = some '*' then none else (readFrom? 0 rest).map (.anyText :: ·)
      | '[' =>
        match classAhead? rest with
        | none => none
        | some (element, width) => (readFrom? width rest).map (element :: ·)
      | c => (readFrom? 0 rest).map (.char c :: ·)

/-- Read a name pattern. -/
def ofText? (text : List Char) : Option NamePattern := readFrom? 0 text

/-- The text that a pattern without choices stands for. -/
def plainText? : NamePattern → Option (List Char)
  | [] => some []
  | .char c :: more => (plainText? more).map (c :: ·)
  | _ => none

end NamePattern

end DocCoverage
