import DocCoverage.FileSystem.Basic
/-!
# File systems — creating directories and files

A file is created where a path ends: the way to its last name has to lead to
a directory, and the last name must be a name. Directories are created along
a path, from the first missing name on. That can fail after some of them are
made, so it answers the file system in any case.
-/

namespace DocCoverage

/-- Where a path ends. -/
inductive Ending where
  /-- At a name in a directory. -/
  | named (directory : Location) (name : String)
  /-- At the root, or with dots. -/
  | unnamed
deriving DecidableEq, Repr

namespace FileSystem

/-- Whether a path ends with a slash. -/
def endsWithSlash (path : Path) : Bool := path.text.toList.getLast? == some '/'

/-- The segments of a path without the slashes at its end. -/
def segmentsOf (path : Path) : List String :=
  (path.segments.reverse.dropWhile (· == "")).reverse

/-- Follow a path up to its last name. -/
def ending (fs : FileSystem) (path : Path) : Except Fault Ending :=
  match pathFault? path with
  | some fault => .error fault
  | none =>
    match (segmentsOf path).getLast? with
    | none => .ok .unnamed
    | some last =>
      match fs.walk (fs.start path) (segmentsOf path).dropLast with
      | .error fault => .error fault
      | .ok directory =>
        match fs.entry? directory with
        | none => .error .notFound
        | some (.file _) => .error .notADirectory
        | some .directory =>
          if last = "." ∨ last = ".." then .ok .unnamed else .ok (.named directory last)

/-- Write a file, new or old. -/
def writeFile (fs : FileSystem) (path : Path) (content : Content) : Except Fault FileSystem :=
  match fs.ending path with
  | .error fault => .error fault
  | .ok .unnamed => .error .isADirectory
  | .ok (.named directory name) =>
    if endsWithSlash path || fs.isDirectoryAt (directory ++ [name]) then .error .isADirectory
    else if isTooLong name then .error .nameTooLong
    else .ok (fs.put (directory ++ [name]) (.file content))

/-- What a path does that goes through a file: it needs the directory that
is not there or, once it has begun to create, wants to create it. -/
def blocked (creating : Bool) (more : List String) : Fault :=
  if more.isEmpty || (creating && !more.all Path.isSilent) then .alreadyExists
  else .notADirectory

/-- Follow segments and create the names that are missing. A dot behind the
last name needs the name to be there. -/
def makeAlong (fs : FileSystem) (creating : Bool) (location : Location) :
    List String → FileSystem × Option Fault
  | [] => (fs, none)
  | segment :: more =>
    match fs.step location segment with
    | .ok next =>
      if fs.isDirectoryAt next then fs.makeAlong creating next more
      else (fs, some (blocked creating more))
    | .error .notFound =>
      if !more.isEmpty && more.all Path.isSilent then (fs, some .notFound)
      else
        let made := location ++ [segment]
        (fs.put made .directory).makeAlong true made more
    | .error fault => (fs, some fault)

/-- Create a directory with all that is missing above it. One that is there
already is as good as a new one, and so is the empty path. -/
def makeDirectories (fs : FileSystem) (path : Path) : FileSystem × Option Fault :=
  if path.text = "" then (fs, none)
  else match pathFault? path with
    | some fault => (fs, some fault)
    | none =>
      if fs.isDirectoryAt (fs.start path) then
        fs.makeAlong false (fs.start path) (segmentsOf path)
      else (fs, some .notFound)

/-- Write a file after creating all directories that are missing above
it. -/
def writeBelow (fs : FileSystem) (path : Path) (content : Content) : FileSystem × Option Fault :=
  match fs.makeDirectories path.directory with
  | (fs, some fault) => (fs, some fault)
  | (fs, none) =>
    match fs.writeFile path content with
    | .ok fs => (fs, none)
    | .error fault => (fs, some fault)

end FileSystem

end DocCoverage
