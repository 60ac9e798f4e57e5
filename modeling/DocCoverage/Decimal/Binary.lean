/-!
# Decimals — what a floating-point number is

A finite floating-point number is a sign, a significand and a power of two.
Everything that is written or rounded is computed exactly from these, on
natural numbers: no floating-point operation takes part.
-/

namespace DocCoverage

/-- The value of a floating-point number. -/
inductive Binary where
  | notANumber
  | infinite (negative : Bool)
  /-- The number `± significand · 2 ^ exponent`. -/
  | finite (negative : Bool) (significand : Nat) (exponent : Int)
deriving DecidableEq, Repr

namespace Binary

/-- Read off the 64 bits: one sign bit, eleven of the exponent, and 52 of
the significand, whose leading bit is implied unless the exponent is the
least one. -/
def ofBits (bits : Nat) : Binary :=
  let negative := decide (Nat.pow 2 63 ≤ bits)
  let scale : Nat := bits / Nat.pow 2 52 % Nat.pow 2 11
  let fraction := bits % Nat.pow 2 52
  if scale = 2047 then
    if fraction = 0 then infinite negative else notANumber
  else if scale = 0 then finite negative fraction (-1074)
  else finite negative (Nat.pow 2 52 + fraction) ((scale : Int) - 1075)

/-- The value of `x`. -/
def of (x : Float) : Binary := ofBits x.toBits.toNat

end Binary

/-! ## Quotients of natural numbers -/

/-- A quotient of two natural numbers, the second of them positive. -/
structure Quotient where
  num : Nat
  den : Nat
deriving DecidableEq, Repr

namespace Quotient

/-- The quotient `n · base ^ e`. -/
def scaled (n base : Nat) (e : Int) : Quotient :=
  if 0 ≤ e then ⟨n * base.pow e.toNat, 1⟩ else ⟨n, base.pow (-e).toNat⟩

/-- The quotient times `base ^ e`. -/
def scale (q : Quotient) (base : Nat) (e : Int) : Quotient :=
  if 0 ≤ e then ⟨q.num * base.pow e.toNat, q.den⟩ else ⟨q.num, q.den * base.pow (-e).toNat⟩

/-- The order of quotients, by cross-multiplication. -/
def le (a b : Quotient) : Bool := a.num * b.den ≤ b.num * a.den

/-- The strict order of quotients. -/
def lt (a b : Quotient) : Bool := a.num * b.den < b.num * a.den

/-- The greatest natural number not above the quotient. -/
def floor (q : Quotient) : Nat := q.num / q.den

/-- The nearest natural number; of two equally near ones the even one. -/
def nearestEven (q : Quotient) : Nat :=
  let below := q.num / q.den
  let rest := q.num % q.den
  if 2 * rest < q.den then below
  else if q.den < 2 * rest then below + 1
  else if below % 2 = 0 then below else below + 1

/-- The nearest natural number; of two equally near ones the greater one. -/
def nearestUp (q : Quotient) : Nat := (2 * q.num + q.den) / (2 * q.den)

end Quotient

/-! ## Counts -/

namespace Binary

/-- The greatest count. -/
def maxCount : Nat := 18446744073709551615

/-- A number as a count: the nearest one, and of two equally near ones the
greater. What is too large is the greatest count. What is negative or not a
number counts nothing. -/
def toCount : Binary → Nat
  | finite false significand exponent =>
    min maxCount (Quotient.scaled significand 2 exponent).nearestUp
  | infinite false => maxCount
  | _ => 0

end Binary

end DocCoverage
