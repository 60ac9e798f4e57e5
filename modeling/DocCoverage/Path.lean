import DocCoverage.Text.Pieces
/-!
# Paths — texts and their components

A path is a text, and it is shown as the text it was made from. What it
means is read off its segments, the pieces between its slashes. Empty
segments and inner dots say nothing, so that differently spelled paths can
have the same components; paths are compared and ordered by these, and two
paths are the same if their components are.
-/

namespace DocCoverage

/-- A path, absolute or relative. -/
structure Path where
  text : String
deriving DecidableEq, Repr, Inhabited

namespace Path

/-! ## Components -/

/-- What a path is made of. -/
inductive Component where
  /-- The root, in front of an absolute path. -/
  | root
  /-- A dot in front of a relative path. -/
  | here
  /-- Two dots. -/
  | up
  /-- A name. -/
  | name (text : String)
deriving DecidableEq, Repr

namespace Component

/-- How a component is written. -/
def text : Component → String
  | root => "/"
  | here => "."
  | up => ".."
  | name text => text

/-- Components of different kinds are ordered by kind. -/
def rank : Component → Nat
  | root => 0
  | here => 1
  | up => 2
  | name _ => 3

/-- The order of components: by kind, and names by their characters. -/
def before (a b : Component) : Prop := a.rank < b.rank ∨ (a.rank = b.rank ∧ a.text < b.text)

instance : LT Component := ⟨before⟩

instance (a b : Component) : Decidable (a < b) :=
  inferInstanceAs (Decidable (a.rank < b.rank ∨ (a.rank = b.rank ∧ a.text < b.text)))

/-- What a segment behind the first says: nothing if it is empty or a dot. -/
def ofSegment? (segment : String) : Option Component :=
  if segment = "" ∨ segment = "." then none
  else if segment = ".." then some up
  else some (name segment)

end Component

/-- The pieces between the slashes. -/
def segments (path : Path) : List String := Text.cutAt '/' path.text

/-- The path with these segments. -/
def ofSegments (segments : List String) : Path := ⟨"/".intercalate segments⟩

/-- An absolute path begins with a slash. -/
def isAbsolute (path : Path) : Bool := path.text.toList.head? == some '/'

/-- The segment in front of a path that is more than a name: nothing in
front of the first slash, or a dot. -/
def lead? (path : Path) : Option String :=
  if path.isAbsolute then some ""
  else if path.segments.head? = some "." then some "."
  else none

/-- The segments behind the lead. -/
def body (path : Path) : List String :=
  if path.lead?.isSome then path.segments.tail else path.segments

/-- The components of a path. -/
def components (path : Path) : List Component :=
  let front := match path.lead? with
    | some "" => [Component.root]
    | some _ => [Component.here]
    | none => []
  front ++ path.body.filterMap Component.ofSegment?

/-- Whether two paths have the same components. -/
def same (a b : Path) : Bool := a.components == b.components

/-- The order of paths: component by component. -/
def before (a b : Path) : Bool := a.components < b.components

/-! ## Parts of a path -/

/-- Whether a segment behind the first says nothing. -/
def isSilent (segment : String) : Bool := segment == "" || segment == "."

/-- The segments without the silent ones at their end. -/
def withoutSilentEnd (segments : List String) : List String :=
  (segments.reverse.dropWhile isSilent).reverse

/-- The path without its last component. The root and the empty path have
no parent. -/
def parent? (path : Path) : Option Path :=
  match withoutSilentEnd path.body, path.lead? with
  | [], some "." => some ⟨""⟩
  | [], _ => none
  | named, lead =>
    match withoutSilentEnd named.dropLast, lead with
    | [], some "" => some ⟨"/"⟩
    | rest, some lead => some (ofSegments (lead :: rest))
    | rest, none => some (ofSegments rest)

/-- The directory of a file: the parent, or nothing at all. -/
def directory (path : Path) : Path := path.parent?.getD ⟨""⟩

/-- The name at the end of a path. -/
def fileName? (path : Path) : Option String :=
  match path.components.getLast? with
  | some (.name text) => some text
  | _ => none

/-- A name cut at its last dot: what is before it and what is behind it. A
dot in front of the name does not count. -/
def cutName (name : String) : String × Option String :=
  match (Text.cutAt '.' name).reverse with
  | [] => (name, none)
  | [_] => (name, none)
  | extension :: front =>
    if front = [""] then (name, none) else (".".intercalate front.reverse, some extension)

/-- The name without its extension, and nothing for a path without a
name. -/
def stem (path : Path) : String :=
  match path.fileName? with
  | some name => (cutName name).1
  | none => ""

/-- The extension of the name. -/
def extension? (path : Path) : Option String := path.fileName?.bind fun name => (cutName name).2

/-- The components joined by slashes. -/
def slashed (path : Path) : String := "/".intercalate (path.components.map Component.text)

/-! ## Joining -/

/-- Go on from a path to another: an absolute path stands for itself. -/
def join (path next : Path) : Path :=
  if next.isAbsolute then next
  else if path.text.isEmpty || path.text.toList.getLast? == some '/' then
    ⟨path.text ++ next.text⟩
  else ⟨path.text ++ "/" ++ next.text⟩

/-- A name inside a directory. -/
def child (path : Path) (name : String) : Path := path.join ⟨name⟩

/-- The absolute path that leads from the root through these names. -/
def ofLocation (names : List String) : Path := ⟨"/" ++ "/".intercalate names⟩

/-- The path without its dots, however it is spelled. -/
def plain (path : Path) : Path :=
  let names := path.components.filter (· != .here)
  match names with
  | .root :: rest => ofLocation (rest.map Component.text)
  | names => ofSegments (names.map Component.text)

end Path

/-! ## Lists in the order of paths -/

namespace Path

variable {α : Type}

/-- Entries in the order of their paths. Those of the same path keep their
order. -/
def inOrder (entries : List (Path × α)) : List (Path × α) :=
  ((entries.map fun entry => (entry.1.components, entry)).mergeSort fun a b =>
    !decide (b.1 < a.1)).map (·.2)

/-- Entries in order without those whose path is the one before. -/
def firstsAfter (previous : Option Path) : List (Path × α) → List (Path × α)
  | [] => []
  | entry :: rest =>
    if previous.any entry.1.same then firstsAfter previous rest
    else entry :: firstsAfter (some entry.1) rest

/-- Entries in order without those whose path is the one behind. -/
def lasts : List (Path × α) → List (Path × α)
  | [] => []
  | entry :: rest =>
    if rest.head?.any fun next => entry.1.same next.1 then lasts rest else entry :: lasts rest

/-- Entries in order, of each path the first. -/
def firstOfEach (entries : List (Path × α)) : List (Path × α) :=
  firstsAfter none (inOrder entries)

/-- Entries in order, of each path the last. -/
def lastOfEach (entries : List (Path × α)) : List (Path × α) := lasts (inOrder entries)

/-- Paths in order, of each the first spelling. -/
def firstSpellings (paths : List Path) : List Path :=
  (firstOfEach (paths.map fun path => (path, ()))).map (·.1)

/-- Paths in order, of each the last spelling. -/
def lastSpellings (paths : List Path) : List Path :=
  (lastOfEach (paths.map fun path => (path, ()))).map (·.1)

end Path

end DocCoverage
