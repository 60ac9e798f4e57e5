/-!
# Decimals — reading a number

An amount is written as an optional sign, digits with an optional point
among or around them, and an optional exponent. The words for infinity and
for no number are amounts too, in any case. The amount read is the
floating-point number nearest to what is written.
-/

namespace DocCoverage

namespace Decimal

/-- Whether a character is a decimal digit. -/
def isDigit (c : Char) : Bool := '0' ≤ c && c ≤ '9'

/-- The value of a decimal digit. -/
def digitValue (c : Char) : Nat := c.toNat - 48

/-- The number that digits spell, continuing one read before. -/
def numberFrom (start : Nat) (digits : List Char) : Nat :=
  digits.foldl (fun n c => 10 * n + digitValue c) start

/-- The number that digits spell. -/
def number (digits : List Char) : Nat := numberFrom 0 digits

/-- The number nearest to `digits · 10 ^ exponent`. Beyond the range of
floating-point numbers the exponent needs no exact arithmetic. -/
def nearest (digits : Nat) (exponent : Int) : Float :=
  let size := ((Nat.toDigits 10 digits).length : Int) + exponent
  if digits = 0 then 0.0
  else if 400 < size then 1.0 / 0.0
  else if size < -400 then 0.0
  else Float.ofScientific digits (exponent < 0) exponent.natAbs

/-- An exponent: its mark, an optional sign and digits. -/
def exponentPart? : List Char → Option Int
  | [] => some 0
  | mark :: rest =>
    if mark = 'e' ∨ mark = 'E' then
      let (negative, digits) := match rest with
        | '-' :: ds => (true, ds)
        | '+' :: ds => (false, ds)
        | ds => (false, ds)
      if digits.isEmpty || !digits.all isDigit then none
      else if negative then some (-(number digits : Int)) else some (number digits)
    else none

/-- An unsigned amount in digits. -/
def unsigned? (text : List Char) : Option Float :=
  let whole := text.takeWhile isDigit
  let afterWhole := text.dropWhile isDigit
  let (fraction, tail) := match afterWhole with
    | '.' :: rest => (rest.takeWhile isDigit, rest.dropWhile isDigit)
    | rest => ([], rest)
  if whole.isEmpty && fraction.isEmpty then none
  else (exponentPart? tail).map fun e => nearest (number (whole ++ fraction)) (e - fraction.length)

/-- A text with its ASCII capitals in lower case. -/
def lowerWord (text : List Char) : String := String.ofList (text.map Char.toLower)

/-- The amount without its sign: digits or one of the words. -/
def magnitude? (text : List Char) : Option Float :=
  let word := lowerWord text
  if word = "inf" ∨ word = "infinity" then some (1.0 / 0.0)
  else if word = "nan" then some (0.0 / 0.0)
  else unsigned? text

/-- The amount that a text spells. -/
def amount? (text : String) : Option Float :=
  match text.toList with
  | '-' :: rest => (magnitude? rest).map fun x => -x
  | '+' :: rest => magnitude? rest
  | rest => magnitude? rest

end Decimal

end DocCoverage
