import DocCoverage.Decimal.Binary
/-!
# Decimals — the fewest digits that read back

Many decimals round to the same floating-point number: those in the interval
that reaches halfway to its two neighbours, with the ends included exactly
when the significand is even. The shortest decimal of a number is one with
the fewest digits in that interval. For each count of digits only the two
decimals next to the value have to be tried, and of two that fit the nearer
one is taken.
-/

namespace DocCoverage

/-- The number `digits · 10 ^ exponent`. -/
structure Decimal where
  digits : Nat
  exponent : Int
deriving DecidableEq, Repr

namespace Decimal

/-- Move trailing zeros of the digits into the exponent, at most `fuel` of
them. -/
def withoutTrailingZeros (fuel : Nat) (d : Decimal) : Decimal :=
  match fuel with
  | 0 => d
  | fuel + 1 =>
    if d.digits ≠ 0 ∧ d.digits % 10 = 0 then
      withoutTrailingZeros fuel ⟨d.digits / 10, d.exponent + 1⟩
    else d

/-- The decimal as a quotient. -/
def value (d : Decimal) : Quotient := Quotient.scaled d.digits 10 d.exponent

/-- The decimals that read back as `significand · 2 ^ exponent`: lower end,
value and upper end of their interval, and whether the ends belong to it.
Below a power of two the spacing is half as wide, except at the least
exponent. -/
structure Interval where
  lower : Quotient
  middle : Quotient
  upper : Quotient
  closed : Bool

/-- The interval around a positive finite number. -/
def Interval.around (significand : Nat) (exponent : Int) : Interval :=
  let quarter (n : Nat) : Quotient := Quotient.scaled n 2 (exponent - 2)
  let narrow := significand = Nat.pow 2 52 ∧ -1074 < exponent
  { lower := quarter (4 * significand - if narrow then 1 else 2)
    middle := quarter (4 * significand)
    upper := quarter (4 * significand + 2)
    closed := significand % 2 = 0 }

/-- Whether a decimal lies in the interval. -/
def Interval.holds (i : Interval) (d : Decimal) : Bool :=
  if i.closed then i.lower.le d.value && d.value.le i.upper
  else i.lower.lt d.value && d.value.lt i.upper

/-- The exponent of the leading digit of a positive quotient, found next to
an estimate: the greatest `e` of the three around it with `10 ^ e` not above
the quotient. -/
def leadingExponent (estimate : Int) (q : Quotient) : Int :=
  if (Quotient.scaled 1 10 (estimate + 1)).le q then estimate + 1
  else if (Quotient.scaled 1 10 estimate).le q then estimate
  else estimate - 1

/-- Of the two decimals next to the value on the grid of `10 ^ exponent`,
the one that reads back; of two, the nearer, and of two equally near the one
with the even last digit. -/
def onGrid? (i : Interval) (exponent : Int) : Option Decimal :=
  let scaledValue := i.middle.scale 10 (-exponent)
  let below : Decimal := ⟨scaledValue.floor, exponent⟩
  let above : Decimal := ⟨scaledValue.floor + 1, exponent⟩
  match i.holds below && below.digits != 0, i.holds above with
  | true, true => some ⟨scaledValue.nearestEven, exponent⟩
  | true, false => some below
  | false, true => some above
  | false, false => none

/-- Try `count + 1`, `count + 2`, … digits, at most `fuel` times. -/
def shortestFrom (i : Interval) (leading : Int) (count : Nat) : (fuel : Nat) → Decimal
  | 0 => ⟨(i.middle.scale 10 (count - leading)).nearestEven, leading - count⟩
  | fuel + 1 =>
    match onGrid? i (leading - count) with
    | some d => d
    | none => shortestFrom i leading (count + 1) fuel

/-- The shortest decimal that reads back as `significand · 2 ^ exponent`.
Seventeen digits always suffice. -/
def shortest (significand : Nat) (exponent : Int) : Decimal :=
  if significand = 0 then ⟨0, 0⟩
  else
    let i := Interval.around significand exponent
    -- 1233 / 4096 is the decimal logarithm of two, to within the estimate's slack
    let estimate := ((significand.log2 : Int) + exponent) * 1233 / 4096
    withoutTrailingZeros 17 (shortestFrom i (leadingExponent estimate i.middle) 0 17)

end Decimal

end DocCoverage
