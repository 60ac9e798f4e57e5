import DocCoverage.Json.Basic
/-!
# JSON — laying one value over another, and dotted keys

Laying a value over another merges objects field by field, however deep they
nest, and otherwise replaces what was there. A dotted key names a place in
nested objects: `a.b.c` is the field `c` of the field `b` of the field `a`.
What is set at a dotted key is read back there, and the objects on the way
are made if they are missing. Setting goes step by step, so that an object can
have been made by the time that something in the way is met.
-/

namespace DocCoverage

namespace Json

mutual

/-- The base with another value laid over it. -/
def overlay (base : Json) : Json → Json
  | obj fields =>
    match base with
    | obj baseFields => obj (overlayFields baseFields fields)
    | _ => obj fields
  | other => other

/-- Fields with others laid over them. Of equal names in the overlay the
first decides, so the others go on first. -/
def overlayFields (base : Fields) : List (String × Json) → Fields
  | [] => base
  | (name, value) :: more =>
    let rest := overlayFields base more
    Fields.insert name
      (match Fields.get? name rest with
        | some (obj old) => overlay (obj old) value
        | _ => value)
      rest

end

/-- The value at a path of field names. -/
def at? (value : Json) : List String → Option Json
  | [] => some value
  | name :: more =>
    match value.field? name with
    | some inner => at? inner more
    | none => none

/-- Set the value at a path of field names; on the way, objects that are
missing are made. Nothing is answered if something on the way is not an
object, or if the path is empty. -/
def setAt? (value new : Json) : List String → Option Json
  | [] => none
  | [name] =>
    match value with
    | obj fields => some (obj (Fields.insert name new fields))
    | _ => none
  | name :: more =>
    match value with
    | obj fields =>
      (setAt? ((Fields.get? name fields).getD (obj [])) new more).map fun inner =>
        obj (Fields.insert name inner fields)
    | _ => none

/-- Set the value at a path of field names, step by step. On the way, an
object that is missing is made before it is known whether the rest of the way
can be gone. Answered are what has become of the value, whatever happened, and
whether the end of the path was reached. -/
def assign (new : Json) : List String → Json → Json × Bool
  | [], value => (value, false)
  | [name], value =>
    match value with
    | obj fields => (obj (Fields.insert name new fields), true)
    | _ => (value, false)
  | name :: more, value =>
    match value with
    | obj fields =>
      let (inner, done) := assign new more ((Fields.get? name fields).getD (obj []))
      (obj (Fields.insert name inner fields), done)
    | _ => (value, false)

end Json

end DocCoverage
