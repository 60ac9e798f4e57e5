import DocCoverage.Source.Kind
import DocCoverage.Text.Letter
import DocCoverage.Text.Search
/-!
# Sources — what a path tells

A file's type and language are read off its path alone, and whether it is
public off its path and its text. Keywords may stand anywhere in the path
and in either case; what marks a file as internal is compared as written.
-/

namespace DocCoverage

/-- Keywords that have to occur in a path together, and the file type they
tell. -/
structure PathRule where
  keywords : List String
  fileType : FileType
deriving DecidableEq, Repr

namespace PathRule

/-- The rules, the first that fits deciding. -/
def all : List PathRule :=
  [ ⟨["components"], .component⟩,
    ⟨["services"], .service⟩,
    ⟨["utils"], .utility⟩,
    ⟨["hooks"], .hook⟩,
    ⟨["api", "route"], .apiRoute⟩,
    ⟨["middleware"], .middleware⟩,
    ⟨["types"], .types⟩,
    ⟨["page.tsx"], .page⟩,
    ⟨["layout.tsx"], .layout⟩,
    ⟨["loading.tsx"], .loading⟩,
    ⟨["error.tsx"], .error⟩,
    ⟨["not-found.tsx"], .notFound⟩,
    ⟨["globals.tsx"], .globals⟩,
    ⟨["constants"], .constants⟩,
    ⟨["templates"], .template⟩ ]

/-- Whether every keyword occurs in the path, which is given in lower
case. -/
def fits (rule : PathRule) (path : List Char) : Bool :=
  rule.keywords.all fun keyword => Text.occursIn keyword.toList path

end PathRule

/-- The type of the file at a path: that of the first rule that fits. -/
def FileType.ofPath (path : String) : FileType :=
  match PathRule.all.find? fun rule => rule.fits (Text.lowered path.toList) with
  | some rule => rule.fileType
  | none => .unknown

/-- The language of files with this extension, in lower case only. -/
def Language.ofExtension : String → Language
  | "ts" => .typescript
  | "tsx" => .tsx
  | "js" => .javascript
  | "jsx" => .javascript
  | "mjs" => .javascript
  | "cjs" => .javascript
  | _ => .unknown

namespace Source

/-- The marks of a public file: it exports something, its path speaks of an
interface or of the public, and its path does not call it internal in any of
three ways. -/
def publicMarks (path text : List Char) : List Bool :=
  let low := Text.lowered path
  [ Text.occursIn "export".toList text,
    Text.occursIn "api".toList low,
    Text.occursIn "public".toList low,
    !"src/lib/internal/".toList.isPrefixOf path,
    !Text.occursIn "_internal".toList path,
    !Text.occursIn ".internal.".toList path ]

/-- The marks it takes to be public. -/
def publicQuorum : Nat := 2

/-- Whether a file with this path and text is public. -/
def isPublic (path text : List Char) : Bool :=
  publicQuorum ≤ (publicMarks path text).countP id

end Source

end DocCoverage
