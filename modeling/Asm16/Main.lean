/-
**The command line.**

Reads the files that the arguments name, lets `Request.answer` decide, then prints and writes what
it decided. The exit status is that of the reply, or 2 when the arguments were used wrongly.
-/

import Asm16.CommandLine.Request

namespace Asm16

/-- The name of a file or a folder as the operating system takes it. -/
def locationName (location : Location) : String :=
  if location = [] then "."
  else if location = .root then "/"
  else "/".intercalate (location.map fun name => Utf8.decodeLossy ⟨name.toArray⟩)

/-- Whether a location is that of a folder, which can be opened and not read: error 21. -/
def isFolderLocation (location : Location) : IO Bool := do
  match ← (IO.FS.readBinFile (locationName location)).toBaseIO with
  | .error (.inappropriateType _ code _) => return code == 21
  | _ => return false

/-- The files that the arguments name, and the folders on the way to them. -/
def readDirectory (arguments : List String) : IO Directory :=
  arguments.foldlM (fun directory (argument : String) => do
    let path := Path.ofBytes argument.toUTF8
    let passed := path.start.passed path.names
    let folders := directory.folders ++ (← passed.filterM isFolderLocation)
    let location := passed.getLast?.getD path.start
    match ← (IO.FS.readBinFile argument).toBaseIO with
    | .ok content => return { folders, files := (location, content) :: directory.files }
    | .error _ => return { directory with folders }) ⟨[], []⟩

/-- The environment variables that matter. -/
def readVariables : IO Variables := do
  let read (name : String) : IO (Option ByteArray) := do
    return (← IO.getEnv name).map String.toUTF8
  return {
    trace := ← read Variables.traceName
    stepBudget := ← read Variables.stepBudgetName
    forceColour := ← read Variables.forceColourName }

end Asm16

open Asm16 in
/-- Carries out the command line of the process. -/
def main (arguments : List String) : IO UInt32 := do
  let directory ← readDirectory arguments
  let request : Request :=
    { arguments := arguments.map String.toUTF8, environment := ← readVariables, directory }
  match request.answer with
  | none => return 1
  | some .wrongUsage =>
    IO.eprint helpText
    return 2
  | some (.reply reply) =>
    IO.print reply.output
    IO.eprint reply.trace
    for (location, content) in reply.directory.changes directory do
      IO.FS.writeBinFile (locationName location) content
    if let some report := reply.report then IO.eprint report.text
    return UInt32.ofNat reply.exitStatus
