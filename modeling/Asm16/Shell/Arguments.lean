/-
**Arguments.**

* `Subcommand` — the words that select a command, with the options and paths each of them takes.
* `Subcommand.read?` — the request of a command's own arguments.
* `Command.ofArguments?` — the request of a list of arguments, unless they are used wrongly.

Arguments are read from left to right. An option may be given once; a value follows it as the next
argument, or after an equals sign, or, for a single letter, directly. After `--` every argument is
a path.
-/

import Asm16.Shell.Draft

namespace Asm16

/-- The words that select a command. -/
inductive Subcommand
  | run
  | compile
  | check
  | disassemble
deriving DecidableEq, Repr

/-- What an argument with options leaves to be done. -/
inductive Reading
  | refused
  | help
  | ready (draft : Draft)
  | awaiting (draft : Draft) (switch : Switch)

/-- What a changed draft leaves to be done. -/
def Reading.ofDraft? : Option Draft → Reading
  | some draft => .ready draft
  | none => .refused

namespace Subcommand

/-- The command that a word selects. -/
def ofName? (name : String) : Option Subcommand :=
  if name = "run" then some run
  else if name = "compile" then some compile
  else if name = "check" then some check
  else if name = "disasm" then some disassemble
  else none

/-- The options of a command. -/
def switches : Subcommand → List Switch
  | run => [.budget, .trace, .minimal, .help]
  | compile => [.format, .help]
  | check | disassemble => [.help]

/-- The number of paths that a command takes at most. -/
def pathLimit : Subcommand → Nat
  | compile => 2
  | run | check | disassemble => 1

/-- The request of a complete draft; a command needs a path. -/
def command? (subcommand : Subcommand) (draft : Draft) : Option Command :=
  match draft.paths with
  | [] => none
  | path :: others => some (match subcommand with
    | run => .run path ⟨draft.budget, draft.trace, draft.minimal⟩
    | compile => .compile path others.head? (draft.format.getD .text)
    | check => .check path
    | disassemble => .disassemble path)

/-- Reads the letters after one dash. A letter that takes a value takes the rest of them. -/
def readLetters (subcommand : Subcommand) (draft : Draft) : List Char → Reading
  | [] => .ready draft
  | letter :: rest =>
    match subcommand.switches.find? (·.letter == letter) with
    | none => .refused
    | some .help => .help
    | some switch =>
      if switch.takesValue then
        match rest with
        | [] => .awaiting draft switch
        | '=' :: value => .ofDraft? (draft.setValue? switch value)
        | value => .ofDraft? (draft.setValue? switch value)
      else
        match draft.turnOn? switch with
        | some draft => subcommand.readLetters draft rest
        | none => .refused

/-- Reads what stands after two dashes: the name of an option, or one with its value. -/
def readName (subcommand : Subcommand) (draft : Draft) (text : List Char) : Reading :=
  let name := String.ofList (text.takeWhile (· != '='))
  match subcommand.switches.find? (·.name == name), text.dropWhile (· != '=') with
  | none, _ => .refused
  | some .help, [] => .help
  | some switch, [] =>
    if switch.takesValue then .awaiting draft switch else .ofDraft? (draft.turnOn? switch)
  | some switch, _ :: value => .ofDraft? (draft.setValue? switch value)

/-- Whether an argument is read as options: a dash and more. -/
def isOption (argument : List Char) : Bool :=
  match argument with
  | '-' :: _ :: _ => true
  | _ => false

/-- The request of a command with the given draft and the arguments that are left. -/
def read? (subcommand : Subcommand) (draft : Draft) : List ByteArray → Option Command
  | [] => subcommand.command? draft
  | argument :: rest =>
    let reading := match (Utf8.decodeLossy argument).toList with
      | ['-', '-'] => none
      | '-' :: '-' :: name => some (subcommand.readName draft name)
      | '-' :: letter :: letters => some (subcommand.readLetters draft (letter :: letters))
      | _ => some (.ofDraft? (draft.addPath? subcommand.pathLimit argument))
    match reading with
    | none => (rest.foldlM (Draft.addPath? subcommand.pathLimit) draft).bind subcommand.command?
    | some .refused => none
    | some .help => some .help
    | some (.ready draft) => subcommand.read? draft rest
    | some (.awaiting draft switch) =>
      match rest with
      | [] => none
      | value :: rest =>
        let text := (Utf8.decodeLossy value).toList
        if isOption text then none
        else
          match draft.setValue? switch text with
          | some draft => subcommand.read? draft rest
          | none => none

end Subcommand

namespace Command

/-- The request of the arguments after the word for help: help in general or on one command. -/
def readHelp? : List ByteArray → Option Command
  | [] => some help
  | [topic] =>
    let name := Utf8.decodeLossy topic
    if name = "help" ∨ (Subcommand.ofName? name).isSome then some help else none
  | _ => none

/-- The request of a command line without a subcommand: to run a file, or none at all. -/
def ofPath (path : Option Path) : Command :=
  match path with
  | some path => run path ⟨none, false, false⟩
  | none => welcome

/-- The request of the arguments that are left, after a path or before any. A subcommand after a
path takes its place. -/
def read? (path : Option Path) : List ByteArray → Option Command
  | [] => some (ofPath path)
  | argument :: rest =>
    match (Utf8.decodeLossy argument).toList with
    | ['-', '-'] =>
      match path, rest with
      | path, [] => some (ofPath path)
      | none, [argument] =>
        if argument.size = 0 then none else some (ofPath (some (.ofBytes argument)))
      | _, _ => none
    | '-' :: '-' :: name =>
      if name = "version".toList then some version
      else if name = "help".toList then some help
      else none
    | '-' :: 'V' :: _ => some version
    | '-' :: 'h' :: _ => some help
    | '-' :: _ :: _ => none
    | text =>
      match Subcommand.ofName? (String.ofList text) with
      | some subcommand => subcommand.read? .empty rest
      | none =>
        if text = "help".toList then readHelp? rest
        else if path.isSome ∨ argument.size = 0 then none
        else read? (some (.ofBytes argument)) rest

/-- The request of a command line, unless its arguments are used wrongly. -/
def ofArguments? (arguments : List ByteArray) : Option Command :=
  read? none arguments

end Command

end Asm16
