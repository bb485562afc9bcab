/-
**File paths.**

* `Path` — a path as it is given on the command line, any bytes.
* `Path.names` — the names that its slashes part, those of folders and at the end of a file.
* `Path.extension?`, `Path.withExtension` — the part of the file name after its last dot.
-/

import Asm16.Utf8

namespace Asm16

/-- A path as it is given, any bytes. -/
structure Path where
  bytes : List UInt8
deriving DecidableEq, Repr

namespace Path

/-- The path of the given bytes. -/
def ofBytes (bytes : ByteArray) : Path :=
  ⟨bytes.data.toList⟩

/-- The bytes of an ASCII text. -/
def ascii (text : String) : List UInt8 :=
  text.toList.map fun c => UInt8.ofNat c.toNat

/-- The byte that parts the names of a path. -/
def slash : UInt8 := 0x2F

/-- The byte before an extension. -/
def dot : UInt8 := 0x2E

/-- The name by which a folder is its own entry. -/
def here : List UInt8 := [dot]

/-- The name by which the folder above is an entry of a folder. -/
def above : List UInt8 := [dot, dot]

/-- The path as text, with a replacement character wherever its bytes are not text. -/
def text (path : Path) : String :=
  Utf8.decodeLossy ⟨path.bytes.toArray⟩

/-! ### The names of a path -/

/-- Puts a byte before the first of the parts that slashes make. -/
def addToParts (byte : UInt8) : List (List UInt8) → List (List UInt8)
  | [] => if byte = slash then [[], []] else [[byte]]
  | part :: rest => if byte = slash then [] :: part :: rest else (byte :: part) :: rest

/-- The parts of a path between its slashes. -/
def parts (path : Path) : List (List UInt8) :=
  path.bytes.foldr addToParts [[]]

/-- The names of a path, one slash or several in a row between them. -/
def names (path : Path) : List (List UInt8) :=
  path.parts.filter (· != [])

/-- Whether a path starts at the root. -/
def isAbsolute (path : Path) : Bool :=
  path.bytes.head? == some slash

/-- Whether a path ends in a slash, which only one to a folder may do. -/
def endsInSlash (path : Path) : Bool :=
  path.bytes.getLast? == some slash

/-! ### The extension of the file name -/

/-- A part that leads nowhere else: an empty one or a single dot. -/
def isIdle (part : List UInt8) : Bool :=
  part == [] || part == here

/-- The parts of a path up to its last one that leads somewhere. -/
def leadingParts (path : Path) : List (List UInt8) :=
  (path.parts.reverse.dropWhile isIdle).reverse

/-- The name of the file, unless the path leads to the folder above. -/
def fileName? (path : Path) : Option (List UInt8) :=
  path.leadingParts.getLast?.filter (· != above)

/-- A file name cut at its last dot, unless that is its first byte or there is none. -/
def cutExtension? (name : List UInt8) : Option (List UInt8 × List UInt8) :=
  let reversed := name.reverse
  match reversed.dropWhile (· != dot) with
  | _ :: stem => if stem = [] then none
    else some (stem.reverse, (reversed.takeWhile (· != dot)).reverse)
  | [] => none

/-- The extension of the file name, if it has one and it is text. -/
def extension? (path : Path) : Option String :=
  (path.fileName?.bind cutExtension?).bind fun (_, extension) =>
    Utf8.decode? ⟨extension.toArray⟩

/-- The path without as many bytes at its end as its extension has; the dot stays. -/
def withoutExtension (path : Path) : Path :=
  match path.fileName?.bind cutExtension? with
  | some (_, extension) => ⟨path.bytes.take (path.bytes.length - extension.length)⟩
  | none => path

/-- The path with an extension added to the stem of its file name, if it leads to a file. -/
def addExtension (path : Path) (extension : String) : Path :=
  match path.fileName? with
  | none => path
  | some name =>
    let stem := match cutExtension? name with
      | some (stem, _) => stem
      | none => name
    let parts := path.leadingParts.dropLast ++ [stem ++ dot :: ascii extension]
    ⟨[slash].intercalate parts⟩

/-- The path with another extension, which is added if there is none. A name of two dots and an
extension leads to the folder above once its extension is off, and is given no other one. -/
def withExtension (path : Path) (extension : String) : Path :=
  path.withoutExtension.addExtension extension

end Path

end Asm16
