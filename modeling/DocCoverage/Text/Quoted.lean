import DocCoverage.Text.Unprintable
/-!
# Text — quoting for messages

A message shows a text that a user gave in quotes, so that its ends are
seen and nothing in it can be mistaken. The quote and the backslash are
escaped, four controls have an escape of their own, and a character that
cannot be shown by itself is written by its number.
-/

namespace DocCoverage

namespace Text

/-- A character inside quotes. -/
def quotedChar (c : Char) : List Char :=
  if c = '"' then ['\\', '"']
  else if c = '\\' then ['\\', '\\']
  else if c = '\x00' then ['\\', '0']
  else if c = '\t' then ['\\', 't']
  else if c = '\r' then ['\\', 'r']
  else if c = '\n' then ['\\', 'n']
  else if isUnprintable c then ['\\', 'u', '\x7b'] ++ Nat.toDigits 16 c.toNat ++ ['\x7d']
  else [c]

/-- A text in quotes. -/
def quoted (s : String) : String :=
  String.ofList ('"' :: (s.toList.flatMap quotedChar ++ ['"']))

end Text

end DocCoverage
