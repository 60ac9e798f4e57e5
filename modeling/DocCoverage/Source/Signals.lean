import DocCoverage.Pattern.Declaration
/-!
# Sources — what a file's text tells

From the text of a source file come the names it exports, as functions,
classes, types and constants, and its complexity: one, and one more for
every branching word and every logical operator. Both are textual. An arrow
function is a constant as well, unless its opening parenthesis follows the
equals sign at once.
-/

namespace DocCoverage

/-- What the text of a source file tells. Each list of names is in order and
without repetitions. -/
structure Signals where
  functions : List String
  classes : List String
  types : List String
  constants : List String
  complexity : Nat
deriving DecidableEq, Repr, Inhabited

namespace Signals

/-! ## Sets of names -/

/-- Put a name into its place; a name that is there already stays alone. -/
def insertName (name : String) : List String → List String
  | [] => [name]
  | other :: rest =>
    if name = other then other :: rest
    else if name < other then name :: other :: rest
    else other :: insertName name rest

/-- The names in order and without repetitions. -/
def nameSet (names : List String) : List String := names.foldl (fun set n => insertName n set) []

/-- Membership after one more name. -/
theorem mem_insertName {name other : String} {names : List String} :
    other ∈ insertName name names ↔ other = name ∨ other ∈ names := by
  induction names with
  | nil => simp [insertName]
  | cons first rest ih =>
    by_cases h : name = first
    · simp [insertName, h]
    · by_cases hlt : name < first
      · simp [insertName, h, hlt]
      · simp only [insertName, h, hlt, if_false, List.mem_cons, ih]
        constructor
        · rintro (h | h | h) <;> simp [h]
        · rintro (h | h | h) <;> simp [h]

/-- The set of a list has the names of the list. -/
theorem mem_nameSet {name : String} {names : List String} :
    name ∈ nameSet names ↔ name ∈ names := by
  suffices h : ∀ (set : List String),
      name ∈ names.foldl (fun set n => insertName n set) set ↔ name ∈ set ∨ name ∈ names by
    simpa [nameSet] using h []
  induction names with
  | nil => simp
  | cons first rest ih =>
    intro set
    simp only [List.foldl_cons, ih, mem_insertName, List.mem_cons]
    constructor
    · rintro ((h | h) | h) <;> simp [h]
    · rintro (h | h | h) <;> simp [h]

/-! ## Exports -/

section Exports

open Pattern

/-- The words that announce an export, each followed by blanks. -/
def announced (words : List String) : Pattern :=
  inOrder (words.map fun word => seq (exactly word) blanks)

/-- The word `async` and blanks behind it, if they are there. -/
def maybeAsync : Pattern := optional (seq (exactly "async") blanks)

/-- An equals sign, blanks around it, and the parenthesis of an arrow
function. -/
def arrow : Pattern := inOrder [exactly "=", maybeBlanks, maybeAsync, exactly "("]

/-- Exported functions: declared ones, arrow functions, and arrow functions
of a stated type. -/
def functionForms : List Declaration :=
  [ ⟨inOrder [announced ["export"], maybeAsync, announced ["function"]], empty⟩,
    ⟨announced ["export", "const"], seq maybeBlanks arrow⟩,
    ⟨announced ["export", "const"],
      inOrder [maybeBlanks, exactly ":", maybeBlanks, many (.anyBut '='), arrow]⟩ ]

/-- Exported classes, plain and abstract. -/
def classForms : List Declaration :=
  [⟨announced ["export", "class"], empty⟩, ⟨announced ["export", "abstract", "class"], empty⟩]

/-- Exported types: aliases, interfaces and enumerations. -/
def typeForms : List Declaration :=
  [⟨announced ["export", "type"], empty⟩, ⟨announced ["export", "interface"], empty⟩,
    ⟨announced ["export", "enum"], empty⟩]

/-- Exported constants: an equals sign and, behind blanks, anything but an
opening parenthesis. -/
def constantForms : List Declaration :=
  [⟨announced ["export", "const"],
    inOrder [maybeBlanks, exactly "=", maybeBlanks, one (.anyBut '(')]⟩]

/-- The words that branch. -/
def branchWords : List String :=
  ["if", "else", "for", "while", "switch", "case", "try", "catch", "finally"]

/-- What adds to the complexity: the words that branch, a question mark with
its colon right behind it, and the two logical operators. -/
def branchForms : List Pattern :=
  branchWords.map (fun word => inOrder [wordEdge, exactly word, wordEdge]) ++
    [inOrder [exactly "?", maybeBlanks, exactly ":"], exactly "&&", exactly "||"]

end Exports

/-- The names that declarations of these forms declare in the text. -/
def declared (forms : List Declaration) (text : List Char) : List String :=
  nameSet (forms.flatMap fun form => (form.names text).map String.ofList)

/-- The greatest complexity. -/
def complexityLimit : Nat := 4294967295

/-- The branches of the text. -/
def branches (text : List Char) : Nat :=
  (branchForms.map fun form => form.count text).foldr (· + ·) 0

/-- The complexity of the text. -/
def complexityOf (text : List Char) : Nat := min complexityLimit (branches text + 1)

/-- What the text tells. -/
def extract (text : List Char) : Signals where
  functions := declared functionForms text
  classes := declared classForms text
  types := declared typeForms text
  constants := declared constantForms text
  complexity := complexityOf text

end Signals

end DocCoverage
