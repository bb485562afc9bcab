/-
**What comes of a command line.**

* `Request` — the arguments, with the environment and the directory they are used in.
* `Request.carryOut` — a command is carried out with the settings of the environment.
* `Request.answerBy` — the arguments are read first, then the settings, then the command is carried
  out. A run that does not end has no answer. How arguments are read is not decided here.
-/

import Asm16.CommandLine.Session

namespace Asm16

/-- A command line with the environment and the directory it is used in. -/
structure Request where
  arguments : List ByteArray
  environment : Variables
  directory : Directory

/-- What comes of a command line: a reply, or none because it was used wrongly. -/
inductive Answer
  | wrongUsage
  | reply (reply : Reply)

namespace Request

/-- Carries out a command with the settings of the environment. Version and help need none. -/
def carryOut (request : Request) (command : Command) : Option Reply :=
  let session (settings : Settings) : Session :=
    { directory := request.directory, settings, colour := request.environment.colour }
  let plain := session ⟨false, none⟩
  if command = .version ∨ command = .help then plain.carryOut command
  else
    match Settings.ofVariables request.environment with
    | .error error => some (plain.reply "" (some (.ofSettingsError error)))
    | .ok settings => (session settings).carryOut command

/-- What comes of a command line by the given way to read arguments, unless it starts a run that
does not end. -/
def answerBy (request : Request) (read : List ByteArray → Option Command) : Option Answer :=
  match read request.arguments with
  | none => some .wrongUsage
  | some command => (request.carryOut command).map .reply

end Request

end Asm16
