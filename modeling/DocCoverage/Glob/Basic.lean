import DocCoverage.Glob.Name
import DocCoverage.Text.Pieces
/-!
# Globs — patterns for paths

A glob is a list of segments between slashes. A segment is a plain name, a
name pattern, or two asterisks, which stand for any number of directories.
Two asterisks must stand alone between slashes, and several such segments in
a row are one. A slash at the end asks for directories.
-/

namespace DocCoverage

/-- What a glob says about one step of a path, or about any number of
them. -/
inductive GlobSegment where
  /-- This name, or dots, or nothing. -/
  | plain (name : String)
  /-- A name that matches. -/
  | wild (pattern : NamePattern)
  /-- Any way down. -/
  | anyDepth
deriving DecidableEq, Repr

namespace GlobSegment

/-- Read a segment. -/
def ofText? (text : String) : Option GlobSegment :=
  if text = "**" then some anyDepth
  else (NamePattern.ofText? text.toList).map fun pattern =>
    match pattern.plainText? with
    | some name => plain (String.ofList name)
    | none => wild pattern

/-- Whether a name matches the segment. -/
def admits : GlobSegment → String → Bool
  | plain name, other => other == name
  | wild pattern, name => pattern.admits name.toList
  | anyDepth, _ => false

end GlobSegment

/-- A pattern for paths. -/
structure Glob where
  segments : List GlobSegment
  directoriesOnly : Bool
deriving DecidableEq, Repr

namespace Glob

/-- Segments for any way down that follow one another are one. -/
def collapse : List GlobSegment → List GlobSegment
  | [] => []
  | segment :: more =>
    let rest := collapse more
    if segment = .anyDepth ∧ rest.head? = some .anyDepth then rest else segment :: rest

/-- Read a glob; one with an invalid segment is invalid. -/
def ofText? (text : String) : Option Glob :=
  let pieces := Text.cutAt '/' text
  let isOpen := pieces.getLast? == some ""
  let written := if isOpen then pieces.dropLast else pieces
  (written.mapM GlobSegment.ofText?).map fun segments => ⟨collapse segments, isOpen⟩

end Glob

end DocCoverage
