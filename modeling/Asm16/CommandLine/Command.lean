/-
**Commands.**

* `Command` — the requests that a command line can make.
* `Format` — the forms of a compiled program, each with its own extension.
* `FileKind` — what a file holds, as its extension tells.
* `RunOptions` — how a program is run.
-/

import Asm16.CommandLine.Path
import Asm16.Program

namespace Asm16

/-- The form of a compiled program: lines of binary digits or packed bytes. -/
inductive Format
  | text
  | binary
deriving DecidableEq, Repr

namespace Format

/-- The extension of a compiled program. -/
def extension : Format → String
  | text => "bin"
  | binary => "hbz"

/-- The form a word of the command line stands for. -/
def ofName? (name : String) : Option Format :=
  if name = "text" then some text else if name = "binary" then some binary else none

/-- The bytes of a program in a form. -/
def encode (format : Format) (words : List Word) : ByteArray :=
  match format with
  | text => (Program.toText words).toUTF8
  | binary => Program.toBytes words

end Format

/-- What a file holds: source, or a compiled program. -/
inductive FileKind
  | source
  | program (format : Format)
deriving DecidableEq, Repr

/-- The kind of a file with the given extension. -/
def FileKind.ofExtension? (extension : String) : Option FileKind :=
  if extension = "asm" then some source
  else if extension = Format.text.extension then some (program .text)
  else if extension = Format.binary.extension then some (program .binary)
  else none

/-- How a program is run: the number of instructions it may execute, if limited, whether it is
traced, and whether the output is without decoration. -/
structure RunOptions where
  budget : Option Nat
  trace : Bool
  minimal : Bool
deriving DecidableEq, Repr

/-- What a command line asks for. -/
inductive Command
  | welcome
  | version
  | help
  | run (path : Path) (options : RunOptions)
  | compile (path : Path) (destination : Option Path) (format : Format)
  | check (path : Path)
  | disassemble (path : Path)
deriving DecidableEq, Repr

end Asm16
