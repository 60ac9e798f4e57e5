import DocCoverage.Decimal.Layout
import DocCoverage.Json.Basic
/-!
# JSON — writing a text

A value is written either on one line without spaces, or with one member a
line and two spaces for every level. Strings escape only what they must: the
quote, the backslash and the controls, of which five have an escape of their
own. Floating-point numbers are written in the natural layout; what has no
such layout is written as null. Everything is written in front of the text
that follows it.
-/

namespace DocCoverage

namespace Json

/-- A hexadecimal digit. -/
def hexDigit (n : Nat) : Char := if n < 10 then Char.ofNat (48 + n) else Char.ofNat (87 + n)

/-- A character inside a string. -/
def escape (c : Char) : List Char :=
  if c = '"' then ['\\', '"']
  else if c = '\\' then ['\\', '\\']
  else if c = '\n' then ['\\', 'n']
  else if c = '\r' then ['\\', 'r']
  else if c = '\t' then ['\\', 't']
  else if c = '\x08' then ['\\', 'b']
  else if c = '\x0c' then ['\\', 'f']
  else if c.toNat < 0x20 then
    ['\\', 'u', '0', '0', hexDigit (c.toNat / 16), hexDigit (c.toNat % 16)]
  else [c]

/-- A string in quotes, in front of what follows. -/
def quoted (s : String) (rest : List Char) : List Char :=
  '"' :: (s.toList.flatMap escape ++ '"' :: rest)

/-- An integer. -/
def integerText (n : Int) : List Char :=
  Decimal.signed (n < 0) (Decimal.digitChars n.natAbs)

/-- A floating-point number, or null. -/
def floatText (x : Float) : List Char := ((Decimal.naturalText? x).getD "null").toList

/-- How members are set: `none` sets them on one line, and `some level` on
lines of their own, indented by two spaces a level. -/
abbrev Indent := Option Nat

/-- The indent of the members of a value set with this indent. -/
def Indent.inner (indent : Indent) : Indent := indent.map (· + 1)

/-- What stands before a member and before a closing bracket. -/
def Indent.lineBreak (indent : Indent) (rest : List Char) : List Char :=
  match indent with
  | none => rest
  | some level => '\n' :: (List.replicate (2 * level) ' ' ++ rest)

/-- What stands between a name and its value. -/
def Indent.colon (indent : Indent) (rest : List Char) : List Char :=
  match indent with
  | none => ':' :: rest
  | some _ => ':' :: ' ' :: rest

mutual

/-- The text of a value, in front of what follows. -/
def render (indent : Indent) : Json → List Char → List Char
  | null, rest => 'n' :: 'u' :: 'l' :: 'l' :: rest
  | bool true, rest => 't' :: 'r' :: 'u' :: 'e' :: rest
  | bool false, rest => 'f' :: 'a' :: 'l' :: 's' :: 'e' :: rest
  | int n, rest => integerText n ++ rest
  | float x, rest => floatText x ++ rest
  | str s, rest => quoted s rest
  | arr [], rest => '[' :: ']' :: rest
  | arr (item :: more), rest =>
    '[' :: indent.inner.lineBreak (render indent.inner item
      (renderItems indent.inner more (indent.lineBreak (']' :: rest))))
  | obj [], rest => '\x7b' :: '\x7d' :: rest
  | obj ((name, value) :: more), rest =>
    '\x7b' :: indent.inner.lineBreak (quoted name (indent.colon (render indent.inner value
      (renderFields indent.inner more (indent.lineBreak ('\x7d' :: rest))))))

/-- The texts of further items, each behind a comma. -/
def renderItems (indent : Indent) : List Json → List Char → List Char
  | [], rest => rest
  | item :: more, rest => ',' :: indent.lineBreak (render indent item (renderItems indent more rest))

/-- The texts of further fields, each behind a comma. -/
def renderFields (indent : Indent) : List (String × Json) → List Char → List Char
  | [], rest => rest
  | (name, value) :: more, rest =>
    ',' :: indent.lineBreak (quoted name (indent.colon (render indent value
      (renderFields indent more rest))))

end

/-- The value on one line. -/
def compact (value : Json) : String := String.ofList (value.render none [])

/-- The value with one member a line. -/
def pretty (value : Json) : String := String.ofList (value.render (some 0) [])

end Json

end DocCoverage
