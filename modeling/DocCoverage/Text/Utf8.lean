/-!
# Text — bytes in UTF-8

A file holds bytes, and its text is what they spell in UTF-8. Reading takes
the bytes in order. A well-formed sequence gives its character. Anything
else gives a unit without a character, as long as the bytes could still have
begun a well-formed sequence; the byte that broke it begins the next unit.
A reader that insists on text refuses such units, and one that shows what it
can puts the replacement character in their place.
-/

namespace DocCoverage

namespace Utf8

/-- Whether a byte continues a sequence. -/
def isContinuation (b : UInt8) : Bool := 0x80 ≤ b && b ≤ 0xBF

/-- The six bits that a continuation byte carries. -/
def payload (b : UInt8) : Nat := b.toNat % 64

/-- The range of the second byte behind a leading byte, which excludes forms
that are too long, surrogates and numbers beyond the last character, and
how many bytes follow the leading one. -/
def leading? (b : UInt8) : Option (Nat × UInt8 × UInt8) :=
  if 0xC2 ≤ b && b ≤ 0xDF then some (1, 0x80, 0xBF)
  else if b == 0xE0 then some (2, 0xA0, 0xBF)
  else if b == 0xED then some (2, 0x80, 0x9F)
  else if 0xE1 ≤ b && b ≤ 0xEF then some (2, 0x80, 0xBF)
  else if b == 0xF0 then some (3, 0x90, 0xBF)
  else if 0xF1 ≤ b && b ≤ 0xF3 then some (3, 0x80, 0xBF)
  else if b == 0xF4 then some (3, 0x80, 0x8F)
  else none

/-- The bits that a leading byte carries, by how many bytes follow it. -/
def leadingBits (following : Nat) (b : UInt8) : Nat :=
  match following with
  | 1 => b.toNat % 32
  | 2 => b.toNat % 16
  | _ => b.toNat % 8

/-- One unit: the first byte, the bytes behind it, the character if there is
one, and how many of the bytes behind belong to the unit. -/
def unit (b : UInt8) (rest : List UInt8) : Option Char × Nat :=
  if b < 0x80 then (some (Char.ofNat b.toNat), 0)
  else match leading? b with
    | none => (none, 0)
    | some (following, low, high) =>
      match rest with
      | [] => (none, 0)
      | second :: more =>
        if !(low ≤ second && second ≤ high) then (none, 0)
        else
          let start := leadingBits following b * 64 + payload second
          let others := (more.take (following - 1)).takeWhile isContinuation
          if others.length + 1 < following then (none, 1 + others.length)
          else
            let code := others.foldl (fun n c => n * 64 + payload c) start
            (some (Char.ofNat code), following)

/-- The units of the bytes, of which the first `covered` belong to the unit
before. -/
def unitsFrom (covered : Nat) : List UInt8 → List (Option Char)
  | [] => []
  | b :: rest =>
    match covered with
    | n + 1 => unitsFrom n rest
    | 0 =>
      let (c, more) := unit b rest
      c :: unitsFrom more rest

/-- The units of the bytes. -/
def units (bytes : List UInt8) : List (Option Char) := unitsFrom 0 bytes

/-- The character that stands for what is not text. -/
def replacement : Char := '\ufffd'

/-- The text of the bytes, if all of them are text. -/
def text? (bytes : List UInt8) : Option String :=
  ((units bytes).mapM id).map String.ofList

/-- The text of the bytes as far as it can be shown. -/
def shownText (bytes : List UInt8) : String :=
  String.ofList ((units bytes).map fun unit => unit.getD replacement)

end Utf8

end DocCoverage
