/-
**What the commands do.**

* `Reply` — what a command prints, the error it ends with and how it leaves the directory.
* `Session` — what a command works with: its directory, its settings and whether colour is wanted.
* `Session.load` — the program of a file, which is read as its extension says.
* `Session.run`, `compile`, `check`, `disassemble` — the commands. A run that does not end has no
  reply.
-/

import Asm16.Assembly
import Asm16.CommandLine.Command
import Asm16.CommandLine.Report
import Asm16.Engine.Run
import Asm16.Terminal.Registers
import Asm16.Terminal.Trace

namespace Asm16

open Terminal

/-- What a command prints, the error it ends with and the directory it leaves. -/
structure Reply where
  output : String
  trace : String
  report : Option Report
  directory : Directory

/-- A command fails when it ends with an error. -/
def Reply.exitStatus (reply : Reply) : Nat :=
  if reply.report.isSome then 1 else 0

/-- The name of the program. -/
def programName : String := "huobz"

/-- The version of the program. -/
def programVersion : String := "0.1.0"

/-- What is printed when nothing is asked for. -/
def welcomeText : String :=
  s!"\n~ {programName} v{programVersion} ~\n\n" ++
    s!"Welcome to {programName}, an assembler and interpreter for the Huobz 16-bit instruction " ++
    "set.\nPlease use `-h` or `--help` to access the usage instructions and documentation.\n\n"

/-- What is printed when the version is asked for. -/
def versionText : String :=
  s!"{programName} {programVersion}\n"

/-- What is printed when help is asked for. -/
def helpText : String :=
  s!"Usage: {programName} [FILE]\n" ++
    s!"       {programName} run [--budget N] [--trace] [--minimal] FILE\n" ++
    s!"       {programName} compile [--format text|binary] FILE [DESTINATION]\n" ++
    s!"       {programName} check FILE\n" ++
    s!"       {programName} disasm FILE\n"

/-- What a command works with. -/
structure Session where
  directory : Directory
  settings : Settings
  colour : Bool

namespace Session

/-- The reply of a command that leaves the directory as it is. -/
def reply (session : Session) (output : String) (report : Option Report) : Reply where
  output
  trace := ""
  report
  directory := session.directory

/-- A line of progress about a file. -/
def fileLine (session : Session) (word : String) (path : Path) : String :=
  statusLine session.colour .green word ("target " ++ path.text)

/-- The program of a source file. -/
def assembleFile (session : Session) (path : Path) : Except Report Assembly := do
  let source ← (session.directory.readText path).mapError .ofFileError
  (assemble source).mapError (.ofSourceError path)

/-- The program of an encoded file. -/
def decodeFile (session : Session) (path : Path) (format : Format) :
    Except Report (List Word) := do
  match format with
  | .text =>
    let text ← (session.directory.readText path).mapError .ofFileError
    (Program.ofText text).mapError .ofProgramError
  | .binary =>
    let bytes ← (session.directory.read path).mapError .ofFileError
    (Program.ofBytes bytes).mapError .ofProgramError

/-- What is printed before the program of a file is read. -/
def loadingText (session : Session) (path : Path) : String :=
  if path.extension?.bind FileKind.ofExtension? = some .source then
    session.fileLine "Assembling" path
  else ""

/-- The program of a file, which its extension says how to read. -/
def load (session : Session) (path : Path) : Except Report (List Word) :=
  match path.extension? with
  | none => .error .noExtension
  | some extension =>
    match FileKind.ofExtension? extension with
    | some .source => (session.assembleFile path).map Assembly.words
    | some (.program format) => session.decodeFile path format
    | none => .error .unknownExtension

/-- Compiles a source file and writes the program, by default beside it. -/
def compile (session : Session) (path : Path) (destination : Option Path) (format : Format) :
    Reply :=
  let output := session.fileLine "Assembling" path
  match session.assembleFile path with
  | .error report => session.reply output (some report)
  | .ok assembly =>
    let destination := destination.getD (path.withExtension format.extension)
    match session.directory.write destination (format.encode assembly.words) with
    | .error error => session.reply output (some (.ofFileError error))
    | .ok directory =>
      { output := output ++
          statusLine session.colour .green "Finished"
            s!"{assembly.words.length} instructions" ++
          session.fileLine "Saved" destination
        trace := ""
        report := none
        directory }

/-- Looks for mistakes in a source file. -/
def check (session : Session) (path : Path) : Reply :=
  let output := session.fileLine "Checking" path
  match session.assembleFile path with
  | .error report => session.reply output (some report)
  | .ok assembly =>
    let instructions := assembly.words.length
    let labels := assembly.labels.size
    session.reply (output ++ statusLine session.colour .green "Success"
      s!"no errors found! ({instructions} instructions, {labels} labels)") none

/-- A word with its address and the instruction it stands for, if it does. -/
def listingLine (address : Nat) (word : Word) : String :=
  let instruction := match Instr.decode word with
    | .ok instr => instr.text
    | .error error => "; " ++ error.message
  padLeft 4 (toString address) ++ "  " ++ Numeral.binary 16 word.toNat ++ "  " ++
    instruction ++ "\n"

/-- Lists the instructions of a program with their addresses. -/
def disassemble (session : Session) (path : Path) : Reply :=
  let output := session.loadingText path
  match session.load path with
  | .error report => session.reply output (some report)
  | .ok words =>
    session.reply (output ++ String.join (words.mapIdx listingLine)) none

/-- What is printed at the end of a run. -/
def endingText (session : Session) (path : Path) (engine : Engine) : String :=
  match engine.status with
  | .faulted fault => statusLine session.colour .red "Faulted" fault.message
  | .halted | .running =>
    statusLine session.colour .cyan "Halted" s!"after {engine.steps} instructions" ++
      session.fileLine "Completed" path

/-- The error a run ends with. -/
def endingReport (engine : Engine) : Option Report :=
  match engine.status with
  | .faulted fault => some (.ofFault engine.machine.pc fault)
  | .halted | .running => none

/-- Adds the line of a notice to a trace, if there is to be one. -/
def traceNotice (form : Form) (traced : Bool) (trace : String) (notice : Notice) : String :=
  if traced then trace ++ notice.line form ++ "\n" else trace

/-- Runs a program and prints the registers it leaves. Options take precedence over settings; the
minimal form is never coloured. -/
def run (session : Session) (path : Path) (options : RunOptions) : Option Reply :=
  let form := if options.minimal then Form.minimal else .full session.colour
  let session := { session with colour := form.coloured }
  let output := session.loadingText path
  match session.load path with
  | .error report => some (session.reply output (some report))
  | .ok words =>
    let traced := options.trace || session.settings.trace
    let engine := Engine.new words (options.budget.or session.settings.stepBudget)
    (engine.run (traceNotice form traced) "").map fun (engine, trace) =>
      { output := output ++
          statusLine session.colour .green "Running" "loaded program" ++
          engine.machine.registerDump form ++ session.endingText path engine
        trace
        report := endingReport engine
        directory := session.directory }

/-- Carries out a command. -/
def carryOut (session : Session) (command : Command) : Option Reply :=
  match command with
  | .welcome => some (session.reply welcomeText none)
  | .version => some (session.reply versionText none)
  | .help => some (session.reply helpText none)
  | .run path options => session.run path options
  | .compile path destination format => some (session.compile path destination format)
  | .check path => some (session.check path)
  | .disassemble path => some (session.disassemble path)

end Session

end Asm16
