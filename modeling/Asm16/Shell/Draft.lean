/-
**A command as far as it has been read.**

* `Switch` — the options of the commands, with their names and letters.
* `Draft` — the options and paths that have been read so far. An option is given at most once.
-/

import Asm16.CommandLine.Command
import Asm16.Numeral

namespace Asm16

/-- The options of the subcommands. -/
inductive Switch
  | budget
  | trace
  | minimal
  | format
  | help
deriving DecidableEq, Repr

namespace Switch

/-- The name of an option after two dashes. -/
def name : Switch → String
  | budget => "budget"
  | trace => "trace"
  | minimal => "minimal"
  | format => "format"
  | help => "help"

/-- The letter of an option after one dash. -/
def letter : Switch → Char
  | budget => 'b'
  | trace => 't'
  | minimal => 'm'
  | format => 'f'
  | help => 'h'

/-- Whether an option takes a value. -/
def takesValue : Switch → Bool
  | budget | format => true
  | trace | minimal | help => false

end Switch

/-- The options and paths of a command, as far as they have been read. -/
structure Draft where
  paths : List Path
  budget : Option Nat
  trace : Bool
  minimal : Bool
  format : Option Format
deriving DecidableEq, Repr

namespace Draft

/-- The draft before anything has been read. -/
def empty : Draft where
  paths := []
  budget := none
  trace := false
  minimal := false
  format := none

/-- The draft with one more path, at most `limit` in all; no path is empty. -/
def addPath? (limit : Nat) (draft : Draft) (bytes : ByteArray) : Option Draft :=
  if draft.paths.length < limit ∧ bytes.size ≠ 0 then
    some { draft with paths := draft.paths ++ [.ofBytes bytes] }
  else none

/-- The draft with the value of an option. -/
def setValue? (draft : Draft) (switch : Switch) (value : List Char) : Option Draft :=
  match switch with
  | .budget =>
    if draft.budget.isSome then none
    else (Numeral.unsigned? Numeral.largest64 value).map fun budget =>
      { draft with budget := some budget }
  | .format =>
    if draft.format.isSome then none
    else (Format.ofName? (String.ofList value)).map fun format =>
      { draft with format := some format }
  | .trace | .minimal | .help => none

/-- The draft with an option that takes no value. -/
def turnOn? (draft : Draft) (switch : Switch) : Option Draft :=
  match switch with
  | .trace => if draft.trace then none else some { draft with trace := true }
  | .minimal => if draft.minimal then none else some { draft with minimal := true }
  | .budget | .format | .help => none

end Draft

end Asm16
