import DocCoverage.FileSystem.Writing
import DocCoverage.Json.Reader
/-!
# File systems — snapshots

A snapshot is a JSON object that lists what is below a directory by path: a
string is the text of a file, an object with the field `hex` holds the bytes
of one, and an object with the field `dir` stands for a directory.
-/

namespace DocCoverage

/-- The bytes that pairs of hexadecimal digits spell. -/
def Snapshot.bytes? : List Char → Option (List UInt8)
  | [] => some []
  | [_] => none
  | high :: low :: rest => do
    let high ← Json.hexValue? high
    let low ← Json.hexValue? low
    let more ← bytes? rest
    return UInt8.ofNat (high * 16 + low) :: more

/-- The content of a file: a string, or an object with its bytes. -/
def Content.ofJson? : Json → Option Content
  | .str value => some (.text value)
  | .obj fields =>
    match Fields.get? "hex" fields with
    | some (.str digits) => (Snapshot.bytes? digits.toList).map Content.ofBytes
    | _ => none
  | _ => none

/-- An entry: a content, or an object that says it is a directory. -/
def Entry.ofJson? (value : Json) : Option Entry :=
  match value.field? "dir" with
  | some (.bool true) => some .directory
  | _ => (Content.ofJson? value).map .file

namespace FileSystem

/-- Create an entry and all directories that are missing above it. -/
def create (fs : FileSystem) (path : Path) : Entry → FileSystem × Option Fault
  | .directory => fs.makeDirectories path
  | .file content => fs.writeBelow path content

/-- Create an entry, if that is possible. -/
def create? (fs : FileSystem) (path : Path) (entry : Entry) : Option FileSystem :=
  match fs.create path entry with
  | (fs, none) => some fs
  | (_, some _) => none

/-- Create what a snapshot lists below a directory. -/
def addSnapshot? (fs : FileSystem) (directory : Path) : Json → Option FileSystem
  | .obj fields => fields.foldlM (fun fs (path, value) => do
      fs.create? (directory.child path) (← Entry.ofJson? value)) fs
  | _ => none

end FileSystem

end DocCoverage
