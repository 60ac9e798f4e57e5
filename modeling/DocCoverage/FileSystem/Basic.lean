import DocCoverage.FileSystem.Listing
import DocCoverage.Path
/-!
# File systems — directories, files and where a path leads

A file system is the listing of its root, in which all names are names, and
a working directory. A path is followed step by step, and every step needs a
directory to start from. Names and paths must not be too long, and no path
holds the null character.
-/

namespace DocCoverage

/-- Directories and files, and the directory in which relative paths
begin. -/
structure FileSystem where
  root : Listing
  workingDirectory : Location
  ordered : root.Ordered
  named : root.Named

/-- Why a path could not be followed or something not be created. -/
inductive Fault where
  | notFound
  | alreadyExists
  | notADirectory
  | isADirectory
  | nameTooLong
  | nullCharacter
deriving DecidableEq, Repr

/-- The message of a fault, with its customary number if it has one. -/
def Fault.message : Fault → String
  | notFound => "No such file or directory (os error 2)"
  | alreadyExists => "File exists (os error 17)"
  | notADirectory => "Not a directory (os error 20)"
  | isADirectory => "Is a directory (os error 21)"
  | nameTooLong => "File name too long (os error 36)"
  | nullCharacter => "file name contained an unexpected NUL byte"

namespace FileSystem

/-- Nothing but the root. -/
def empty : FileSystem := ⟨.nothing, [], Listing.ordered_nothing, Listing.named_nothing⟩

instance : Inhabited FileSystem := ⟨empty⟩

/-! ## Locations -/

/-- What stands at a location. -/
def entry? (fs : FileSystem) (location : Location) : Option Entry := fs.root.entry? location

/-- The file system with an entry at a location, if names lead there. -/
def put (fs : FileSystem) (location : Location) (entry : Entry) : FileSystem :=
  if names : ∀ name ∈ location, Listing.isName name then
    { fs with
      root := fs.root.put entry location
      ordered := Listing.ordered_put location fs.ordered
      named := Listing.named_put names fs.named }
  else fs

/-- The file system without a location and all that is below it. -/
def removeAll (fs : FileSystem) (location : Location) : FileSystem :=
  { fs with
    root := fs.root.remove location
    ordered := Listing.ordered_remove location fs.ordered
    named := Listing.named_remove location fs.named }

/-- The names on the way from a location to each location below it, in
increasing order. -/
def below (fs : FileSystem) (location : Location) : List Location :=
  ((fs.root.listing? location).map Listing.locations).getD []

/-- The names in a directory, in increasing order. -/
def children (fs : FileSystem) (location : Location) : List String :=
  ((fs.root.listing? location).map Listing.names).getD []

/-- Whether a directory stands at the location. -/
def isDirectoryAt (fs : FileSystem) (location : Location) : Bool :=
  fs.entry? location == some .directory

/-- The content of the file at the location. -/
def contentAt? (fs : FileSystem) (location : Location) : Option Content :=
  match fs.entry? location with
  | some (.file content) => some content
  | _ => none

/-! ## Limits -/

/-- The most bytes of a path. -/
def longestPath : Nat := 4095

/-- What is wrong with a path before it is followed: it is empty, has a
character that no path may have, or is too long. -/
def pathFault? (path : Path) : Option Fault :=
  if path.text = "" then some .notFound
  else if path.text.toList.contains '\x00' then some .nullCharacter
  else if longestPath < path.text.utf8ByteSize then some .nameTooLong
  else none

/-! ## Following a path -/

/-- One step: stay, go up or go to a name, from something that has to be a
directory. -/
def step (fs : FileSystem) (location : Location) (segment : String) : Except Fault Location :=
  match fs.entry? location with
  | none => .error .notFound
  | some (.file _) => .error .notADirectory
  | some .directory =>
    if segment = "" ∨ segment = "." then .ok location
    else if segment = ".." then .ok location.dropLast
    else if isTooLong segment then .error .nameTooLong
    else if (fs.entry? (location ++ [segment])).isSome then .ok (location ++ [segment])
    else .error .notFound

/-- Follow segments one by one. -/
def walk (fs : FileSystem) : Location → List String → Except Fault Location
  | location, [] => .ok location
  | location, segment :: more =>
    match fs.step location segment with
    | .ok next => fs.walk next more
    | .error fault => .error fault

/-- Where a path begins. -/
def start (fs : FileSystem) (path : Path) : Location :=
  if path.isAbsolute then [] else fs.workingDirectory

/-- Where a path leads, if there is something. -/
def resolve (fs : FileSystem) (path : Path) : Except Fault Location :=
  match pathFault? path with
  | some fault => .error fault
  | none => fs.walk (fs.start path) path.segments

/-- What a path leads to. -/
def lookUp? (fs : FileSystem) (path : Path) : Option Entry :=
  match fs.resolve path with
  | .ok location => fs.entry? location
  | .error _ => none

/-- Whether a path leads to something. -/
def leadsSomewhere (fs : FileSystem) (path : Path) : Bool := (fs.lookUp? path).isSome

/-- Whether a path leads to a directory. -/
def isDirectory (fs : FileSystem) (path : Path) : Bool := fs.lookUp? path == some .directory

/-- Whether a path leads to a file. -/
def isFile (fs : FileSystem) (path : Path) : Bool :=
  match fs.lookUp? path with
  | some (.file _) => true
  | _ => false

/-- The content of the file that a path leads to. -/
def content? (fs : FileSystem) (path : Path) : Option Content :=
  match fs.lookUp? path with
  | some (.file content) => some content
  | _ => none

/-- The text of the file that a path leads to. -/
def readText? (fs : FileSystem) (path : Path) : Option String :=
  (fs.content? path).bind Content.text?

end FileSystem

end DocCoverage
