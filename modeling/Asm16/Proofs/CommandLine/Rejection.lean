/-
**All commands refuse the same sources.**

* `Command.Takes` — the commands that assemble a source file: it is run, compiled, checked or
  listed.
* `Directory.Holds`, `Directory.Refuses` — a file whose source assembles to a program, and one that
  is refused with a report: it is no text, or there is a mistake in it. By
  `Directory.holds_or_refuses` a file is one of the two.
* `Session.Proceeds` — what a command makes of the program of a source.
* `Session.Rejects` — a command that ends with a report before it has done anything: it has printed
  one line of progress, and the directory is as it was.
* `Request.all_proceed_or_all_reject` — on a source file either all commands go on with the same
  program or all of them reject it with the same report.
-/

import Asm16.Proofs.CommandLine.CompileRun

namespace Asm16

open Terminal

/-! ### Commands on a source file -/

namespace Command

/-- The commands that assemble the source file at a path. -/
inductive Takes (path : Path) : Command → Prop
  | run (options : RunOptions) : Takes path (.run path options)
  | compile (destination : Option Path) (format : Format) :
      Takes path (.compile path destination format)
  | check : Takes path (.check path)
  | disassemble : Takes path (.disassemble path)

/-- The word for what a command does first with a source file. -/
def progress : Command → String
  | .check _ => "Checking"
  | _ => "Assembling"

/-- How the output of a command is decorated. -/
def form (colour : Bool) : Command → Form
  | .run _ options => options.form colour
  | _ => .full colour

end Command

/-! ### Source files -/

namespace Directory

/-- A path leads to source that assembles to a program. -/
def Holds (directory : Directory) (path : Path) (program : Assembly) : Prop :=
  ∃ source, directory.readText path = .ok source ∧ assemble source = .ok program

/-- Why the source that a path leads to is refused: it cannot be read as text, or there is a mistake
in it. -/
inductive Refuses (directory : Directory) (path : Path) : Report → Prop
  | unreadable {error : FileError} (read : directory.readText path = .error error) :
      Refuses directory path (.ofFileError error)
  | mistaken {source : String} {error : SourceError} (read : directory.readText path = .ok source)
      (assembled : assemble source = .error error) :
      Refuses directory path (.ofSourceError path error)

theorem holds_or_refuses (directory : Directory) (path : Path) :
    (∃ program, directory.Holds path program) ∨ ∃ report, directory.Refuses path report := by
  cases read : directory.readText path with
  | error error => exact .inr ⟨_, .unreadable read⟩
  | ok source =>
    cases assembled : assemble source with
    | error error => exact .inr ⟨_, .mistaken read assembled⟩
    | ok program => exact .inl ⟨program, source, read, assembled⟩

end Directory

namespace Session

variable {session : Session} {path : Path}

theorem assembleFile_of_holds {program : Assembly} (holds : session.directory.Holds path program) :
    session.assembleFile path = .ok program := by
  obtain ⟨source, read, assembled⟩ := holds
  rw [assembleFile_of_readText read, assembled]
  rfl

theorem assembleFile_of_refuses {report : Report}
    (refuses : session.directory.Refuses path report) :
    session.assembleFile path = .error report := by
  cases refuses with
  | unreadable read =>
    rw [assembleFile, read]
    rfl
  | mistaken read assembled =>
    rw [assembleFile_of_readText read, assembled]
    rfl

/-! ### Going on -/

/-- What a command makes of the program of a source file: a run is that of the program, a file is
written unless that fails, the numbers of instructions and labels are printed, or the words are
listed. -/
def Proceeds (session : Session) (program : Assembly) : Command → Option Reply → Prop
  | .run path options, reply =>
    let form := options.form session.colour
    let engine := Engine.new program.words (options.budget.or session.settings.stepBudget)
    reply = (engine.run (traceNotice form (options.trace || session.settings.trace)) "").map
      (runReply form (fileText form "Assembling" path) path session.directory)
  | .compile path destination format, reply =>
    let target := destination.getD (path.withExtension format.extension)
    ∀ later, session.directory.write target (format.encode program.words) = .ok later →
      reply = some {
        output := session.fileLine "Assembling" path ++
          statusLine session.colour .green "Finished" s!"{program.words.length} instructions" ++
          session.fileLine "Saved" target
        trace := ""
        report := none
        directory := later }
  | .check path, reply =>
    reply = some (session.reply (session.fileLine "Checking" path ++
      statusLine session.colour .green "Success"
        s!"no errors found! ({program.words.length} instructions, {program.labels.size} labels)")
      none)
  | .disassemble path, reply =>
    reply = some (session.reply (session.fileLine "Assembling" path ++
      String.join (program.words.mapIdx listingLine)) none)
  | .welcome, _ | .version, _ | .help, _ => False

/-- What is printed before a source file is listed. -/
theorem loadingText_of_asm (extension : path.extension? = some "asm") :
    session.loadingText path = session.fileLine "Assembling" path :=
  loadingText_of_source extension (.full session.colour)

/-- A source that assembles lets every command go on with its program. -/
theorem proceeds_of_holds {command : Command} {program : Assembly}
    (extension : path.extension? = some "asm") (takes : command.Takes path)
    (holds : session.directory.Holds path program) :
    session.Proceeds program command (session.carryOut command) := by
  have assembled := assembleFile_of_holds holds
  have loaded : session.load path = .ok program.words := by
    rw [load_of_source extension, assembled]
    rfl
  cases takes with
  | run options =>
    have ran := run_of_load loaded options
    simp only [loadingText_of_source extension] at ran
    exact ran
  | compile destination format =>
    intro later written
    show some (session.compile path destination format) = _
    rw [compile]
    simp only [assembled, written]
  | check =>
    show some (session.check path) = _
    rw [check]
    simp only [assembled]
  | disassemble =>
    show some (session.disassemble path) = _
    rw [disassemble]
    simp only [loaded, loadingText_of_asm extension]

/-! ### Rejecting -/

/-- A command ends with a report before it has done anything: it has printed that it begins with a
file and nothing else, and all files are as they were. -/
structure Rejects (session : Session) (path : Path) (report : Report) (command : Command)
    (reply : Reply) : Prop where
  exitStatus : reply.exitStatus = 1
  report : reply.report = some report
  output : reply.output = fileText (command.form session.colour) command.progress path
  trace : reply.trace = ""
  directory : reply.directory = session.directory

/-- A source that is refused ends every command after its first line of output. -/
theorem carryOut_of_refuses {command : Command} {report : Report}
    (extension : path.extension? = some "asm") (takes : command.Takes path)
    (refuses : session.directory.Refuses path report) :
    session.carryOut command = some (session.reply
      (fileText (command.form session.colour) command.progress path) (some report)) := by
  have assembled := assembleFile_of_refuses refuses
  have loaded : session.load path = .error report := by
    rw [load_of_source extension, assembled]
    rfl
  cases takes with
  | run options =>
    show session.run path options = _
    rw [run_of_load_error loaded, loadingText_of_source extension]
    rfl
  | compile destination format =>
    show some (session.compile path destination format) = _
    rw [compile]
    simp only [assembled]
    rfl
  | check =>
    show some (session.check path) = _
    rw [check]
    simp only [assembled]
    rfl
  | disassemble =>
    show some (session.disassemble path) = _
    rw [disassemble]
    simp only [loaded, loadingText_of_asm extension]
    rfl

/-- A source that is refused is rejected by every command. -/
theorem rejects_of_refuses (session : Session) {command : Command} {report : Report}
    (extension : path.extension? = some "asm") (takes : command.Takes path)
    (refuses : session.directory.Refuses path report) :
    ∃ reply, session.carryOut command = some reply ∧
      session.Rejects path report command reply :=
  ⟨_, carryOut_of_refuses extension takes refuses, rfl, rfl, rfl, rfl, rfl⟩

end Session

namespace Request

variable {settings : Settings} {path : Path}

/-- **On a source file all commands go on with its program, or all of them reject it with the same
report** and leave every file as it was. -/
theorem all_proceed_or_all_reject (read : List ByteArray → Option Command) (request : Request)
    (made : Settings.ofVariables request.environment = .ok settings)
    (extension : path.extension? = some "asm") :
    (∃ program, request.directory.Holds path program ∧
      ∀ arguments command, read arguments = some command → command.Takes path →
        ∃ reply, answerBy { request with arguments } read = reply.map .reply ∧
          (request.session settings).Proceeds program command reply) ∨
    ∃ report, request.directory.Refuses path report ∧
      ∀ arguments command, read arguments = some command → command.Takes path →
        ∃ reply, answerBy { request with arguments } read = some (.reply reply) ∧
          (request.session settings).Rejects path report command reply := by
  have answered {arguments : List ByteArray} {command : Command}
      (asked : read arguments = some command) (takes : command.Takes path) :
      answerBy { request with arguments } read =
        ((request.session settings).carryOut command).map .reply :=
    answer_of_settings { request with arguments } made asked
      (by cases takes <;> exact ⟨nofun, nofun⟩)
  rcases request.directory.holds_or_refuses path with ⟨program, holds⟩ | ⟨report, refuses⟩
  · refine .inl ⟨program, holds, fun arguments command asked takes => ?_⟩
    exact ⟨_, answered asked takes, Session.proceeds_of_holds extension takes holds⟩
  · refine .inr ⟨report, refuses, fun arguments command asked takes => ?_⟩
    obtain ⟨reply, ended, rejects⟩ :=
      Session.rejects_of_refuses (request.session settings) extension takes refuses
    exact ⟨reply, by rw [answered asked takes, ended]; rfl, rejects⟩

/-- A jump to a label that is not declared is rejected for that by every command, under a step
budget. -/
theorem all_reject_undeclared_label :
    let path : Path := ⟨Path.ascii "b.asm"⟩
    let request : Request :=
      { arguments := []
        environment := ⟨none, some " 9\n".toUTF8, none⟩
        directory := ⟨[], [([Path.ascii "b.asm"], "JMP far\n".toUTF8)]⟩ }
    Settings.ofVariables request.environment = .ok ⟨false, some 9⟩ ∧
      path.extension? = some "asm" ∧
      ∃ report, report.code = some "asm::unresolved_operand" ∧
        ∀ arguments command, Command.ofArguments? arguments = some command → command.Takes path →
          ∃ reply, answer { request with arguments } = some (.reply reply) ∧
            (request.session ⟨false, some 9⟩).Rejects path report command reply := by
  intro path request
  have made : Settings.ofVariables request.environment = .ok ⟨false, some 9⟩ := by decide +kernel
  have extension : path.extension? = some "asm" := by decide +kernel
  have text : request.directory.readText path = .ok "JMP far\n" := by decide +kernel
  have refused : assemble "JMP far\n" = .error ⟨1, ⟨4, 3⟩, .unresolvedOperand "far"⟩ := by
    decide +kernel
  refine ⟨made, extension, ?_⟩
  rcases all_proceed_or_all_reject Command.ofArguments? request made extension with
    ⟨program, ⟨source, read, assembled⟩, -⟩ | ⟨report, refuses, rejects⟩
  · obtain rfl := Except.ok.inj (text.symm.trans read)
    rw [refused] at assembled
    cases assembled
  · refine ⟨report, ?_, rejects⟩
    cases refuses with
    | unreadable read =>
      rw [text] at read
      cases read
    | mistaken read assembled =>
      obtain rfl := Except.ok.inj (text.symm.trans read)
      obtain rfl := Except.error.inj (refused.symm.trans assembled)
      rfl

end Request

end Asm16
