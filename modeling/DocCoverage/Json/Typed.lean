import DocCoverage.Json.Basic
/-!
# JSON — reading typed values

A value is read as a type either whole or not at all. Integers count as
floating-point numbers, but not the other way round, and null counts as
nothing. A record may be given by its fields, of which unknown ones are
ignored, or by the array of its fields in the order of their declaration.
A name from a fixed list of names may be given as a string, or as an object
with the name as its only field and null as the value of that field.
-/

namespace DocCoverage

namespace Json

/-- Bounds of the two sizes of natural numbers: 32 and 64 bits. -/
def bound32 : Nat := Nat.pow 2 32

/-- The bound of 64 bits. -/
def bound64 : Nat := Nat.pow 2 64

/-- The integer as a floating-point number. -/
def floatOfInt (n : Int) : Float :=
  if n < 0 then -(Float.ofNat n.natAbs) else Float.ofNat n.toNat

/-- A number. -/
def asFloat? : Json → Option Float
  | int n => some (floatOfInt n)
  | float x => some x
  | _ => none

/-- A natural number below the bound. -/
def asNat? (bound : Nat) : Json → Option Nat
  | int n => if 0 ≤ n ∧ n < bound then some n.toNat else none
  | _ => none

/-- A natural number of 32 bits. -/
def asNat32? : Json → Option Nat := asNat? bound32

/-- A natural number of 64 bits. -/
def asNat64? : Json → Option Nat := asNat? bound64

/-- An integer of 64 bits. -/
def asInt64? : Json → Option Int
  | int n => if -(Int.pow 2 63) ≤ n ∧ n < Int.pow 2 63 then some n else none
  | _ => none

/-- A truth value. -/
def asBool? : Json → Option Bool
  | bool b => some b
  | _ => none

/-- A string. -/
def asString? : Json → Option String
  | str s => some s
  | _ => none

/-- An array of values of one type. -/
def asList? {α : Type} (item? : Json → Option α) : Json → Option (List α)
  | arr items => items.mapM item?
  | _ => none

/-- An array of strings. -/
def asStrings? : Json → Option (List String) := asList? asString?

/-- An object whose values are of one type. -/
def asMap? {α : Type} (item? : Json → Option α) : Json → Option (List (String × α))
  | obj fields => fields.mapM fun (name, value) => (item? value).map (name, ·)
  | _ => none

/-- A name from a fixed list of names. -/
def asName? {α : Type} (ofName? : String → Option α) : Json → Option α
  | str s => ofName? s
  | obj [(name, null)] => ofName? name
  | _ => none

/-- The fields of a record that needs all of them, in order. -/
def allFields? (names : List String) : Json → Option (List Json)
  | obj fields => names.mapM fun name => Fields.get? name fields
  | arr items => if items.length = names.length then some items else none
  | _ => none

/-- The fields of a record that may lack some of them, in order. An array
may lack the last ones. -/
def someFields? (names : List String) : Json → Option (List (Option Json))
  | obj fields => some (names.map fun name => Fields.get? name fields)
  | arr items =>
    if items.length ≤ names.length then
      some (items.map some ++ List.replicate (names.length - items.length) none)
    else none
  | _ => none

/-- A field of a record: its own value if it is there, and the default if
not. -/
def fieldOr? {α : Type} (read? : Json → Option α) (default : α) : Option Json → Option α
  | none => some default
  | some value => read? value

end Json

end DocCoverage
