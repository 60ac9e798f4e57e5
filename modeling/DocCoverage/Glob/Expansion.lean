import DocCoverage.FileSystem.Basic
import DocCoverage.Glob.Basic
/-!
# Globs — the files that match

A glob is expanded from a directory. Every segment leads from a place to the
places it stands for, in increasing order of their names, and the segments
walked are kept as the trail, since a plain segment is walked as it is
written. Behind any way down, the next segment is compared with names only.
Whether there is a file at the end of a trail is asked of the path that the
trail is walked by, and no path is longer than paths can be.
-/

namespace DocCoverage

/-- A place that an expansion has reached, and the segments walked to it. -/
structure Reached where
  place : Location
  trail : List String
deriving DecidableEq, Repr

namespace Reached

/-- Go on to another place. -/
def advance (r : Reached) (place : Location) (segments : List String) : Reached :=
  ⟨place, r.trail ++ segments⟩

end Reached

namespace GlobSegment

/-- Whether a name pattern begins with a dot. Such a pattern can stand for
the directory itself and the one above it. -/
def beginsWithDot : NamePattern → Bool
  | .char '.' :: _ => true
  | _ => false

/-- One step along a written segment, if it leads to something. -/
def follow (fs : FileSystem) (r : Reached) (segment : String) : List Reached :=
  match fs.step r.place segment with
  | .ok place => [r.advance place [segment]]
  | .error _ => []

/-- The places that a name pattern leads to: dots that match, then the
names in the directory that match. -/
def wildSteps (fs : FileSystem) (r : Reached) (pattern : NamePattern) : List Reached :=
  if fs.isDirectoryAt r.place then
    let dots := if beginsWithDot pattern then ["..", "."] else []
    (dots ++ fs.children r.place).flatMap fun name =>
      if pattern.admits name.toList then follow fs r name else []
  else []

end GlobSegment

namespace Glob

/-- The places below that any way down leads to. -/
def descend (fs : FileSystem) (r : Reached) : List Reached :=
  (fs.below r.place).map fun way => r.advance (r.place ++ way) way

/-- The places that segments lead to from places. At the end, any way down
leads to directories only. A place that is reached twice on the same trail
is gone on from once. -/
def expand (fs : FileSystem) : List GlobSegment → List Reached → List Reached
  | [], rs => rs
  | .plain name :: more, rs => expand fs more (rs.flatMap fun r => GlobSegment.follow fs r name)
  | .wild pattern :: more, rs =>
    expand fs more (rs.flatMap fun r => GlobSegment.wildSteps fs r pattern)
  | [.anyDepth], rs =>
    rs.eraseDups.flatMap fun r => (descend fs r).filter fun below => fs.isDirectoryAt below.place
  | .anyDepth :: next :: more, rs =>
    expand fs more (rs.eraseDups.flatMap fun r =>
      (descend fs r).filter fun below => below.place.getLast?.any next.admits)

/-- The path that a trail is walked by, below the directory where it begins.
Empty segments add nothing to it. -/
def written (trail : List String) : Path := Path.ofSegments (trail.filter (· != ""))

/-- The path that a trail spells below the directory where it begins: as it is
written, without the dots at its beginning. -/
def spelled (trail : List String) : Path :=
  Path.ofSegments ((trail.filter (· != "")).dropWhile (· == "."))

/-- The path that a trail spells from the root of the file system. -/
def spelledFromRoot (trail : List String) : Path := Path.ofLocation (trail.filter (· != ""))

/-- The trails that lead from a directory to files. -/
def trailsToFiles (fs : FileSystem) (glob : Glob) (directory : Location) : List (List String) :=
  if glob.directoriesOnly then []
  else ((expand fs glob.segments [⟨directory, []⟩]).filter fun r =>
    (fs.contentAt? r.place).isSome).map (·.trail)

/-- The trails that lead from a directory to the files that match: the path at
which a file is looked up has to be one. -/
def fileTrails (fs : FileSystem) (glob : Glob) (lookedUp : List String → Path)
    (directory : Location) : List (List String) :=
  (trailsToFiles fs glob directory).filter fun trail =>
    (FileSystem.pathFault? (lookedUp trail)).isNone

end Glob

end DocCoverage
