import DocCoverage.Decimal.Reading
import DocCoverage.Json.Basic
/-!
# JSON — reading a number

A number written without fraction and exponent that fits 64 bits is an
integer: a natural number below 2^64, or a negative one not below -2^63.
Every other number is a floating-point number. Its digits are gathered in a
64-bit significand as long as they fit; digits of the integer part beyond
that only count as powers of ten, and digits of the fraction beyond that are
dropped. The significand is then multiplied or divided by one power of ten,
in floating-point arithmetic. A number that is too large is an error; one
that is too small is zero.
-/

namespace DocCoverage

namespace Json

/-- The bound of a significand. -/
def significandBound : Nat := Nat.pow 2 64

/-- The significand of the leading digits that fit, and the digits that are
left over. -/
def gather (significand : Nat) : List Char → Nat × List Char
  | [] => (significand, [])
  | c :: rest =>
    let next := 10 * significand + Decimal.digitValue c
    if next < significandBound then gather next rest else (significand, c :: rest)

/-- The power of ten as a floating-point number. -/
def powerOfTen (n : Nat) : Float := Float.ofScientific 1 false n

/-- Divide by the largest power of ten in use until the exponent is in
range, at most `fuel` times: three times take every significand to zero. -/
def shrink (fuel : Nat) (x : Float) (exponent : Int) : Float :=
  match fuel with
  | 0 => x
  | fuel + 1 =>
    if x == 0 then x
    else if exponent < -308 then shrink fuel (x / powerOfTen 308) (exponent + 308)
    else x / powerOfTen exponent.natAbs

/-- The number `significand · 10 ^ exponent`, unless it is too large. -/
def scaled? (significand : Nat) (exponent : Int) : Option Float :=
  let x := Float.ofNat significand
  if 0 ≤ exponent then
    if 308 < exponent then if significand = 0 then some x else none
    else
      let y := x * powerOfTen exponent.natAbs
      if y.isInf then none else some y
  else some (shrink 4 x exponent)

/-- The bound of an exponent that is read digit by digit. -/
def exponentBound : Nat := Nat.pow 2 31

/-- Keep an exponent within 32 bits. -/
def clampExponent (e : Int) : Int := max (-2147483648) (min 2147483647 e)

/-- The magnitude of a floating-point number, from its significand, the
exponent that its digits imply, and the text behind them, which may begin
with an exponent mark. Answers the magnitude and the text behind the
number. -/
def withExponent? (significand : Nat) (implied : Int) (text : List Char) :
    Option (Float × List Char) :=
  match text with
  | [] => (scaled? significand implied).map (·, [])
  | mark :: rest =>
    if mark = 'e' ∨ mark = 'E' then
      let (negative, tail) := match rest with
        | '-' :: ds => (true, ds)
        | '+' :: ds => (false, ds)
        | ds => (false, ds)
      let digits := tail.takeWhile Decimal.isDigit
      let behind := tail.dropWhile Decimal.isDigit
      let written := Decimal.number digits
      if digits.isEmpty then none
      else if exponentBound ≤ written then
        if significand ≠ 0 ∧ !negative then none else some (0.0, behind)
      else
        let exponent := clampExponent (if negative then implied - written else implied + written)
        (scaled? significand exponent).map (·, behind)
    else (scaled? significand implied).map (·, mark :: rest)

/-- The magnitude of a floating-point number whose integer part has the
given significand and left-over digits; the text begins behind the integer
part. -/
def magnitude? (significand : Nat) (leftOver : Nat) (text : List Char) :
    Option (Float × List Char) :=
  match text with
  | '.' :: rest =>
    let digits := rest.takeWhile Decimal.isDigit
    let behind := rest.dropWhile Decimal.isDigit
    if digits.isEmpty then none
    else
      let (full, dropped) := gather significand digits
      let used := digits.length - dropped.length
      withExponent? full ((leftOver : Int) - used) behind
  | _ => withExponent? significand leftOver text

/-- An integer, unless it does not fit 64 bits or is a negative zero. -/
def integer? (negative : Bool) (n : Nat) : Option Int :=
  if negative then if 0 < n ∧ n ≤ Nat.pow 2 63 then some (-(n : Int)) else none
  else some n

/-- Whether a fraction or an exponent follows. -/
def goesOn : List Char → Bool
  | [] => false
  | c :: _ => c == '.' || c == 'e' || c == 'E'

/-- Read the number at the beginning of the text. -/
def number? (text : List Char) : Option (Json × List Char) :=
  let (negative, unsigned) := match text with
    | '-' :: rest => (true, rest)
    | rest => (false, rest)
  let digits := unsigned.takeWhile Decimal.isDigit
  let behind := unsigned.dropWhile Decimal.isDigit
  if digits.isEmpty || (digits.head? == some '0' && digits.length != 1) then none
  else
    let (significand, leftOver) := gather 0 digits
    let asFloat := (magnitude? significand leftOver.length behind).map fun (x, tail) =>
      (Json.float (if negative then -x else x), tail)
    if leftOver.isEmpty && !goesOn behind then
      match integer? negative significand with
      | some n => some (Json.int n, behind)
      | none => asFloat
    else asFloat

end Json

end DocCoverage
