import DocCoverage.Json.Typed
/-!
# Sources — file types, languages and priorities

The names a source file is described with. Every name has one key, which is
how it is written in settings and in reports, and no two names share a key.
-/

namespace DocCoverage

/-- What a source file is for, read off its path. -/
inductive FileType where
  | component
  | service
  | utility
  | hook
  | apiRoute
  | middleware
  | types
  | page
  | layout
  | loading
  | error
  | notFound
  | globals
  | constants
  | template
  | unknown
deriving DecidableEq, Repr, Inhabited

namespace FileType

/-- All file types, in the order in which reports list them. -/
def all : List FileType :=
  [component, service, utility, hook, apiRoute, middleware, types, page, layout, loading,
    error, notFound, globals, constants, template, unknown]

/-- The key of a file type. -/
def key : FileType → String
  | component => "component"
  | service => "service"
  | utility => "utility"
  | hook => "hook"
  | apiRoute => "api_route"
  | middleware => "middleware"
  | types => "types"
  | page => "page"
  | layout => "layout"
  | loading => "loading"
  | error => "error"
  | notFound => "not_found"
  | globals => "globals"
  | constants => "constants"
  | template => "template"
  | unknown => "unknown"

/-- The file type with this key. -/
def ofKey? (name : String) : Option FileType := all.find? fun t => t.key == name

/-- Read a file type. -/
def ofJson? : Json → Option FileType := Json.asName? ofKey?

end FileType

/-- The language of a source file, read off its extension. -/
inductive Language where
  | typescript
  | tsx
  | javascript
  | unknown
deriving DecidableEq, Repr, Inhabited

namespace Language

/-- All languages. -/
def all : List Language := [typescript, tsx, javascript, unknown]

/-- The key of a language. -/
def key : Language → String
  | typescript => "typescript"
  | tsx => "tsx"
  | javascript => "javascript"
  | unknown => "unknown"

/-- The language with this key. -/
def ofKey? (name : String) : Option Language := all.find? fun l => l.key == name

/-- Read a language. -/
def ofJson? : Json → Option Language := Json.asName? ofKey?

end Language

/-- How urgently a source file needs documentation. -/
inductive Priority where
  | critical
  | high
  | medium
  | low
deriving DecidableEq, Repr, Inhabited

namespace Priority

/-- All priorities, the most urgent first. -/
def all : List Priority := [critical, high, medium, low]

/-- The key of a priority. -/
def key : Priority → String
  | critical => "critical"
  | high => "high"
  | medium => "medium"
  | low => "low"

/-- The heading under which a priority is listed. -/
def heading : Priority → String
  | critical => "CRITICAL"
  | high => "HIGH"
  | medium => "MEDIUM"
  | low => "LOW"

/-- The place of a priority, the most urgent first. -/
def rank : Priority → Nat
  | critical => 0
  | high => 1
  | medium => 2
  | low => 3

/-- The priority with this key. -/
def ofKey? (name : String) : Option Priority := all.find? fun p => p.key == name

/-- Read a priority. -/
def ofJson? : Json → Option Priority := Json.asName? ofKey?

end Priority

/-- The work that closing a gap takes. -/
inductive Effort where
  | low
  | medium
  | high
deriving DecidableEq, Repr, Inhabited

namespace Effort

/-- All efforts. -/
def all : List Effort := [low, medium, high]

/-- The key of an effort. -/
def key : Effort → String
  | low => "low"
  | medium => "medium"
  | high => "high"

/-- The effort with this key. -/
def ofKey? (name : String) : Option Effort := all.find? fun e => e.key == name

/-- Read an effort. -/
def ofJson? : Json → Option Effort := Json.asName? ofKey?

end Effort

end DocCoverage
