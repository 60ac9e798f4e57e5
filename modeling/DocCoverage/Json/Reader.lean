import DocCoverage.Json.Number
/-!
# JSON — reading a text

A text is read from left to right. Every reader takes the characters ahead
and answers a value with the characters behind it. Arrays and objects may
nest 127 deep, and the reader of values is recursive in the depth that is
left; the members of an array or object are read by a loop that has a
character of the text to spend on each. Of two fields of one name the last
counts.
-/

namespace DocCoverage

namespace Json

/-- The depth to which arrays and objects may nest. -/
def maximumDepth : Nat := 127

/-- The white space of JSON: space, tab, line feed and carriage return. -/
def isSpace (c : Char) : Bool := c == ' ' || c == '\t' || c == '\n' || c == '\r'

/-- The text without leading white space. -/
def skipSpace (text : List Char) : List Char := text.dropWhile isSpace

/-! ## Strings -/

/-- The value of a hexadecimal digit of either case. -/
def hexValue? (c : Char) : Option Nat :=
  if '0' ≤ c ∧ c ≤ '9' then some (c.toNat - 48)
  else if 'a' ≤ c ∧ c ≤ 'f' then some (c.toNat - 87)
  else if 'A' ≤ c ∧ c ≤ 'F' then some (c.toNat - 55)
  else none

/-- The code unit that four hexadecimal digits spell. -/
def unit? (a b c d : Char) : Option Nat := do
  let a ← hexValue? a
  let b ← hexValue? b
  let c ← hexValue? c
  let d ← hexValue? d
  return ((a * 16 + b) * 16 + c) * 16 + d

/-- Whether a code unit is the first half of a pair. -/
def isHighHalf (unit : Nat) : Bool := 0xD800 ≤ unit && unit < 0xDC00

/-- Whether a code unit is the second half of a pair. -/
def isLowHalf (unit : Nat) : Bool := 0xDC00 ≤ unit && unit < 0xE000

/-- The character of two halves. -/
def ofHalves (high low : Nat) : Char :=
  Char.ofNat (0x10000 + (high - 0xD800) * 1024 + (low - 0xDC00))

/-- The character of a one-letter escape. -/
def escaped? (c : Char) : Option Char :=
  if c = '"' ∨ c = '\\' ∨ c = '/' then some c
  else if c = 'b' then some '\x08'
  else if c = 'f' then some '\x0c'
  else if c = 'n' then some '\n'
  else if c = 'r' then some '\r'
  else if c = 't' then some '\t'
  else none

/-- Read a string behind its opening quote. -/
def stringBody? : List Char → Option (List Char × List Char)
  | [] => none
  | '"' :: rest => some ([], rest)
  | '\\' :: 'u' :: a :: b :: c :: d :: rest =>
    match unit? a b c d with
    | none => none
    | some unit =>
      if isLowHalf unit then none
      else if isHighHalf unit then
        match rest with
        | '\\' :: 'u' :: e :: f :: g :: h :: behind =>
          match unit? e f g h with
          | none => none
          | some low =>
            if isLowHalf low then
              (stringBody? behind).map fun (cs, tail) => (ofHalves unit low :: cs, tail)
            else none
        | _ => none
      else (stringBody? rest).map fun (cs, tail) => (Char.ofNat unit :: cs, tail)
  | '\\' :: c :: rest =>
    match escaped? c with
    | none => none
    | some x => (stringBody? rest).map fun (cs, tail) => (x :: cs, tail)
  | c :: rest =>
    if c.toNat < 0x20 ∨ c = '\\' then none
    else (stringBody? rest).map fun (cs, tail) => (c :: cs, tail)

/-- Read a string at the beginning of the text. -/
def string? : List Char → Option (String × List Char)
  | '"' :: rest => (stringBody? rest).map fun (cs, tail) => (String.ofList cs, tail)
  | _ => none

/-! ## Members of arrays and objects -/

/-- A reader of one value. -/
abbrev Reader := List Char → Option (Json × List Char)

/-- Read the items of an array and its closing bracket, at most as many as
there are characters in `fuel`. -/
def items? (value? : Reader) : (fuel : List Char) → List Char → Option (List Json × List Char)
  | [], _ => none
  | _ :: fuel, text => do
    let (item, behind) ← value? text
    match skipSpace behind with
    | ',' :: rest =>
      let (more, tail) ← items? value? fuel rest
      return (item :: more, tail)
    | ']' :: rest => return ([item], rest)
    | _ => none

/-- Read the fields of an object and its closing brace, at most as many as
there are characters in `fuel`. -/
def fields? (value? : Reader) : (fuel : List Char) → List Char →
    Option (List (String × Json) × List Char)
  | [], _ => none
  | _ :: fuel, text => do
    let (name, behindName) ← string? (skipSpace text)
    match skipSpace behindName with
    | ':' :: rest =>
      let (value, behind) ← value? rest
      match skipSpace behind with
      | ',' :: rest =>
        let (more, tail) ← fields? value? fuel rest
        return ((name, value) :: more, tail)
      | '\x7d' :: rest => return ([(name, value)], rest)
      | _ => none
    | _ => none

/-- Read the rest of an array behind its opening bracket. -/
def array? (value? : Reader) (text : List Char) : Option (Json × List Char) :=
  match skipSpace text with
  | ']' :: rest => some (arr [], rest)
  | _ => (items? value? text text).map fun (items, tail) => (arr items, tail)

/-- Read the rest of an object behind its opening brace. -/
def objectBody? (value? : Reader) (text : List Char) : Option (Json × List Char) :=
  match skipSpace text with
  | '\x7d' :: rest => some (obj [], rest)
  | _ => (fields? value? text text).map fun (fields, tail) => (object fields, tail)

/-! ## Values -/

/-- Read a value that is neither an array nor an object. -/
def scalar? : Reader
  | 'n' :: 'u' :: 'l' :: 'l' :: rest => some (null, rest)
  | 't' :: 'r' :: 'u' :: 'e' :: rest => some (bool true, rest)
  | 'f' :: 'a' :: 'l' :: 's' :: 'e' :: rest => some (bool false, rest)
  | '"' :: rest => (string? ('"' :: rest)).map fun (s, tail) => (str s, tail)
  | text => number? text

/-- Read a value in which arrays and objects nest at most `depth` deep. -/
def value? : (depth : Nat) → Reader
  | 0, text =>
    match skipSpace text with
    | '[' :: _ => none
    | '\x7b' :: _ => none
    | rest => scalar? rest
  | depth + 1, text =>
    match skipSpace text with
    | '[' :: rest => array? (value? depth) rest
    | '\x7b' :: rest => objectBody? (value? depth) rest
    | rest => scalar? rest

/-- Read a text that holds one value and white space. -/
def parse? (text : String) : Option Json :=
  match value? maximumDepth text.toList with
  | some (value, behind) => if (skipSpace behind).isEmpty then some value else none
  | none => none

end Json

end DocCoverage
