import DocCoverage.Decimal.Shortest
/-!
# Decimals — how numbers are laid out

Two layouts are used. The natural one writes the shortest decimal that reads
back: positionally while the leading digit stands between 10^-5 and 10^15,
always with a point, and with a signed exponent otherwise. The other writes a
fixed number of places, the exact value rounded, with ties going to the even
neighbour.
-/

namespace DocCoverage

namespace Decimal

/-- The digits of a natural number. -/
def digitChars (n : Nat) : List Char := Nat.toDigits 10 n

/-- The integer part and the fraction of digits with a point `places` from
the right, at least one digit before it. -/
def withPoint (digits : List Char) (places : Nat) : List Char × List Char :=
  let padded := List.replicate (places + 1 - digits.length) '0' ++ digits
  (padded.take (padded.length - places), padded.drop (padded.length - places))

/-- The natural layout of an unsigned decimal. -/
def natural (d : Decimal) : List Char :=
  let digits := digitChars d.digits
  let leading := (digits.length : Int) - 1 + d.exponent
  if -5 ≤ leading ∧ leading ≤ 15 then
    if 0 ≤ d.exponent then digits ++ List.replicate d.exponent.toNat '0' ++ ['.', '0']
    else
      let (whole, fraction) := withPoint digits (-d.exponent).toNat
      whole ++ '.' :: fraction
  else
    let mantissa := match digits with
      | first :: second :: more => first :: '.' :: second :: more
      | short => short
    let exponent := if leading < 0 then '-' :: digitChars (-leading).toNat
      else '+' :: digitChars leading.toNat
    mantissa ++ 'e' :: exponent

/-- The sign of a number. -/
def signed (negative : Bool) (text : List Char) : List Char :=
  if negative then '-' :: text else text

/-- The natural layout of a finite number; nothing else has one. -/
def naturalText? (x : Float) : Option String :=
  match Binary.of x with
  | .finite negative significand exponent =>
    some (String.ofList (signed negative (natural (shortest significand exponent))))
  | _ => none

/-- A number with `places` digits after the point. -/
def fixedText (places : Nat) (x : Float) : String :=
  match Binary.of x with
  | .notANumber => "NaN"
  | .infinite negative => String.ofList (signed negative ['i', 'n', 'f'])
  | .finite negative significand exponent =>
    let units := ((Quotient.scaled significand 2 exponent).scale 10 places).nearestEven
    let (whole, fraction) := withPoint (digitChars units) places
    String.ofList (signed negative (whole ++ (if places = 0 then [] else '.' :: fraction)))

/-- A text filled up with spaces on its left. -/
def padLeft (width : Nat) (text : String) : String :=
  String.ofList (List.replicate (width - text.length) ' ') ++ text

end Decimal

end DocCoverage
