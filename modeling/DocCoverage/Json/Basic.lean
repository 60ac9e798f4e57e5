/-!
# JSON — values and their fields

A JSON value, with integers and floating-point numbers kept apart. The
fields of an object are a list of names and values; those of a value that
was read or built by `Fields.insert` are in increasing order of their names.
A look-up takes the first field of a name, so that what it answers is
decided by `Fields.get?_insert_self` and `Fields.get?_insert_of_ne` whether
the list is in order or not.
-/

namespace DocCoverage

/-- A JSON value. -/
inductive Json where
  | null
  | bool (value : Bool)
  | int (value : Int)
  | float (value : Float)
  | str (value : String)
  | arr (items : List Json)
  | obj (fields : List (String × Json))
deriving Inhabited, BEq, Repr

/-- The fields of an object. -/
abbrev Fields := List (String × Json)

namespace Fields

/-- The value of the first field of this name. -/
def get? (name : String) : Fields → Option Json
  | [] => none
  | (key, value) :: rest => if key = name then some value else get? name rest

/-- Set the field of this name: a field of the name is replaced, and a new
one is put before the first greater name. -/
def insert (name : String) (value : Json) : Fields → Fields
  | [] => [(name, value)]
  | (key, old) :: rest =>
    if key = name then (name, value) :: rest
    else if name < key then (name, value) :: (key, old) :: rest
    else (key, old) :: insert name value rest

/-- Fields in order of their names, of equal names the last one. -/
def ofPairs (pairs : List (String × Json)) : Fields :=
  pairs.foldl (fun fields (name, value) => insert name value fields) []

/-- A field that was set is read back. -/
@[simp] theorem get?_insert_self (name : String) (value : Json) (fields : Fields) :
    (insert name value fields).get? name = some value := by
  induction fields with
  | nil => simp [insert, get?]
  | cons field rest ih =>
    obtain ⟨key, old⟩ := field
    by_cases h : key = name
    · simp [insert, get?, h]
    · by_cases hlt : name < key
      · simp [insert, get?, h, hlt]
      · simp [insert, get?, h, hlt, ih]

/-- Setting a field leaves the others alone. -/
theorem get?_insert_of_ne {name other : String} (hne : name ≠ other) (value : Json)
    (fields : Fields) : (insert name value fields).get? other = fields.get? other := by
  induction fields with
  | nil => simp [insert, get?, hne]
  | cons field rest ih =>
    obtain ⟨key, old⟩ := field
    by_cases h : key = name
    · subst h; simp [insert, get?, hne]
    · by_cases hlt : name < key
      · simp [insert, get?, h, hlt, hne]
      · simp [insert, get?, h, hlt, ih]

end Fields

namespace Json

/-- The object with these fields, put in order. -/
def object (pairs : List (String × Json)) : Json := obj (Fields.ofPairs pairs)

/-- The field of this name, if the value is an object that has it. -/
def field? (name : String) : Json → Option Json
  | obj fields => Fields.get? name fields
  | _ => none

/-- The field of this name; a field that is not there counts as null. -/
def fieldOrNull (name : String) (value : Json) : Json := (value.field? name).getD null

/-- A list of strings as an array. -/
def strings (items : List String) : Json := arr (items.map str)

/-- A natural number. -/
def nat (n : Nat) : Json := int n

end Json

end DocCoverage
