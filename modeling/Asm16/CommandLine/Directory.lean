/-
**The directory a command works in.**

* `Location` — the names by which a folder or a file is reached from the directory or the root.
* `Directory` — files by their locations, and the folders beside the directory itself.
* `FileError` — why a file cannot be read or written.
* `Directory.enter`, `approach` — a path is walked name by name: all but the last one have to lead
  to folders.
* `Directory.read`, `readText`, `write` — access to a file by its path.
* `Directory.changes` — the files that are new or different after a command.
-/

import Asm16.CommandLine.Path

namespace Asm16

/-- The names by which a folder or a file is reached from the directory that a command works in.
An empty name at the front stands for the root; the folders above the directory are reached by
the name of the folder above, which stands nowhere else. -/
abbrev Location := List (List UInt8)

namespace Location

/-- The root. -/
def root : Location := [[]]

/-- Whether a location is the directory itself or a folder above it. -/
def isAbove (location : Location) : Bool :=
  location.all (· == Path.above)

/-- The folder above a folder; the root has none but itself. -/
def parent (location : Location) : Location :=
  if location = root then root
  else if location.isAbove then location ++ [Path.above]
  else location.dropLast

/-- What an entry of a folder leads to. -/
def entry (folder : Location) (name : List UInt8) : Location :=
  if name = Path.here then folder
  else if name = Path.above then folder.parent
  else folder ++ [name]

/-- The locations that names lead to one after the other, from a folder on. -/
def passed (folder : Location) : List (List UInt8) → List Location
  | [] => []
  | name :: rest => folder.entry name :: (folder.entry name).passed rest

end Location

/-- Where the names of a path are followed from. -/
def Path.start (path : Path) : Location :=
  if path.isAbsolute then .root else []

/-- Why a file cannot be read or written. -/
inductive FileError
  | notFound
  | notADirectory
  | isADirectory
  | nameTooLong
  | notText
deriving DecidableEq, Repr

/-- The words in which a failed access is reported. -/
def FileError.message : FileError → String
  | notFound => "No such file or directory (os error 2)"
  | notADirectory => "Not a directory (os error 20)"
  | isADirectory => "Is a directory (os error 21)"
  | nameTooLong => "File name too long (os error 36)"
  | notText => "stream did not contain valid UTF-8"

/-- Files with their contents, and folders that hold none of them. The root, the directory itself
and those above it are folders in any case. -/
structure Directory where
  folders : List Location
  files : List (Location × ByteArray)

namespace Directory

/-- The number of bytes that a name may have. -/
def nameLimit : Nat := 255

/-- The number of bytes that a path may have. -/
def pathLimit : Nat := 4095

/-- The content of the file at a location, if there is one. -/
def lookup (directory : Directory) (location : Location) : Option ByteArray :=
  directory.files.lookup location

/-- Whether a location is a folder. -/
def isFolder (directory : Directory) (location : Location) : Bool :=
  location == .root || location.isAbove || directory.folders.any location.isPrefixOf ||
    directory.files.any fun (file, _) => location.isPrefixOf file && location != file

/-! ### Walking along a path -/

/-- The folder that an entry of a folder leads to. -/
def enter (directory : Directory) (folder : Location) (name : List UInt8) :
    Except FileError Location :=
  let inner := folder.entry name
  if nameLimit < name.length then .error .nameTooLong
  else if directory.isFolder inner then .ok inner
  else if (directory.lookup inner).isSome then .error .notADirectory
  else .error .notFound

/-- The folder that all names of a path but the last one lead to, and the last name. A path that
has no names or ends in the name of a folder leads to no file. -/
def approach (directory : Directory) (path : Path) : Except FileError (Location × List UInt8) :=
  if pathLimit < path.bytes.length then .error .nameTooLong
  else
    match path.names.getLast? with
    | none => if path.isAbsolute then .error .isADirectory else .error .notFound
    | some name =>
      match path.names.dropLast.foldlM directory.enter path.start with
      | .error error => .error error
      | .ok folder =>
        if name = Path.here ∨ name = Path.above then .error .isADirectory else .ok (folder, name)

/-- The location of the file by a name in a folder, whether or not the file is there. -/
def locate (directory : Directory) (folder : Location) (name : List UInt8) :
    Except FileError Location :=
  if nameLimit < name.length then .error .nameTooLong
  else if directory.isFolder (folder.entry name) then .error .isADirectory
  else .ok (folder.entry name)

/-! ### Reading and writing -/

/-- The bytes of a file. -/
def read (directory : Directory) (path : Path) : Except FileError ByteArray := do
  let (folder, name) ← directory.approach path
  let location ← directory.locate folder name
  match directory.lookup location with
  | none => .error .notFound
  | some content => if path.endsInSlash then .error .notADirectory else .ok content

/-- The text of a file. -/
def readText (directory : Directory) (path : Path) : Except FileError String :=
  match directory.read path with
  | .error error => .error error
  | .ok content =>
    match Utf8.decode? content with
    | some text => .ok text
    | none => .error .notText

/-- The directory after a file has been written, in the place of the one there was. -/
def write (directory : Directory) (path : Path) (content : ByteArray) :
    Except FileError Directory := do
  let (folder, name) ← directory.approach path
  if path.endsInSlash then .error .isADirectory
  else
    let location ← directory.locate folder name
    return { directory with
      files := directory.files.filter (·.1 != location) ++ [(location, content)] }

/-- The files of a directory that are not, with the same content, in an earlier one. -/
def changes (later earlier : Directory) : List (Location × ByteArray) :=
  later.files.filter fun (location, content) => earlier.lookup location != some content

end Directory

end Asm16
