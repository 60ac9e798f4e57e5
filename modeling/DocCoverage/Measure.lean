/-!
# Measures — the arithmetic of grades and shares

Grades and shares are computed with a few operations on numbers. A program
runs them on floating-point numbers; a law about them may read the same
definitions over exact numbers.
-/

namespace DocCoverage

/-- What grades and shares need of the numbers they are computed with. -/
class Measure (α : Type) extends Add α, Mul α, Div α, OfScientific α where
  /-- A count as a number. -/
  ofCount : Nat → α
  /-- Whether the first number is less than the second. -/
  less : α → α → Bool

/-- Floating-point numbers. -/
instance : Measure Float where
  ofCount := Float.ofNat
  less a b := decide (a < b)

namespace Measure

variable {α : Type} [Measure α]

/-- The lesser of two numbers. -/
def least (a b : α) : α := if less b a then b else a

/-- The number, moved up to the lower bound or down to the upper one if it
is beyond. -/
def clamp (x low high : α) : α := if less x low then low else if less high x then high else x

end Measure

end DocCoverage
