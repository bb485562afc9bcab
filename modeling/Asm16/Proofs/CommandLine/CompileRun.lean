/-
**A compiled program runs like its source.**

* `Directory.Assembles`, `Directory.Encodes` — a file of source that assembles to a program, and a
  file that holds the program in one of its two forms. Either is loaded as the program.
* `Session.run_of_load` — the reply to a run depends on the program that is loaded; only two lines
  of its output name the file.
* `SameRun` — the replies to a run of source and to a run of the program compiled from it.
* `Request.compiled_runs_alike` — compiling succeeds, changes nothing but the destination, and
  leaves a file there that runs like the source. As in all theorems about requests, arguments are
  read in any way that finds the commands in them.
-/

import Asm16.CommandLine.Request
import Asm16.Proofs.Assembly.Translation
import Asm16.Proofs.CommandLine.Writing
import Asm16.Proofs.Program.Encoding

namespace Asm16

open Terminal

/-! ### Loading -/

/-- A path leads to source that assembles to a program. -/
structure Directory.Assembles (directory : Directory) (path : Path) (words : List Word) :
    Prop where
  extension : path.extension? = some "asm"
  assembled : ∃ source program, directory.readText path = .ok source ∧
    assemble source = .ok program ∧ program.words = words

/-- A path leads to a program in one of its forms. -/
structure Directory.Encodes (directory : Directory) (path : Path) (format : Format)
    (words : List Word) : Prop where
  extension : path.extension? = some format.extension
  content : directory.read path = .ok (format.encode words)

variable {directory : Directory} {path : Path} {format : Format} {words : List Word}

/-- A program that has been assembled fits in memory. -/
theorem Directory.Assembles.fits (assembles : directory.Assembles path words) :
    words.length ≤ 4096 := by
  obtain ⟨source, program, -, assembled, rfl⟩ := assembles.assembled
  rw [(translates_of_assemble assembled).size]
  exact (wellFormed_of_assemble assembled).fits

/-- Writing a program file leaves source as it is. -/
theorem Directory.Assembles.of_write {later : Directory} {target : Path} {content : ByteArray}
    (assembles : directory.Assembles path words)
    (written : directory.write target content = .ok later)
    (extension : target.extension? = some format.extension) : later.Assembles path words := by
  obtain ⟨source, program, readText, assembled⟩ := assembles.assembled
  -- The extensions tell the two files apart, however the paths to them are written.
  have apart : path.fileName? ≠ target.fileName? := by
    intro same
    have equal : path.extension? = target.extension? := by
      rw [Path.extension?, Path.extension?, same]
    rw [assembles.extension, extension] at equal
    cases format <;> simp [Format.extension] at equal
  refine ⟨assembles.extension, source, program, ?_, assembled⟩
  cases read : directory.read path with
  | error error =>
    rw [Directory.readText, read] at readText
    cases readText
  | ok kept =>
    rw [Directory.readText, read] at readText
    rw [Directory.readText, Directory.read_of_write_of_ne written read apart]
    exact readText

/-- The kind of a program file is told by the extension of its form. -/
theorem FileKind.ofExtension?_extension (format : Format) :
    ofExtension? format.extension = some (program format) := by
  cases format <;> rfl

theorem Utf8.decode?_toUTF8 (text : String) : decode? text.toUTF8 = some text :=
  dif_pos text.isValidUTF8

namespace Session

variable {session : Session}

/-- A file that is read as text is assembled as its text is. -/
theorem assembleFile_of_readText {source : String}
    (read : session.directory.readText path = .ok source) :
    session.assembleFile path = (assemble source).mapError (.ofSourceError path) := by
  rw [assembleFile, read]
  rfl

/-- A source file is loaded by assembling it. -/
theorem load_of_source (extension : path.extension? = some "asm") :
    session.load path = (session.assembleFile path).map Assembly.words := by
  rw [load, extension]
  rfl

theorem assembleFile_of_assembles (assembles : session.directory.Assembles path words) :
    ∃ program, session.assembleFile path = .ok program ∧ program.words = words := by
  obtain ⟨source, program, read, assembled, same⟩ := assembles.assembled
  refine ⟨program, ?_, same⟩
  rw [assembleFile_of_readText read, assembled]
  rfl

theorem load_of_assembles (assembles : session.directory.Assembles path words) :
    session.load path = .ok words := by
  obtain ⟨program, assembled, rfl⟩ := assembleFile_of_assembles assembles
  rw [load_of_source assembles.extension, assembled]
  rfl

/-- A program that fits in memory is loaded from either of its forms. -/
theorem load_of_encodes (encodes : session.directory.Encodes path format words)
    (fits : words.length ≤ 4096) : session.load path = .ok words := by
  have fitting : Program.fitting words = .ok words := if_pos fits
  have decoded : session.load path = session.decodeFile path format := by
    rw [load, encodes.extension]
    simp only [FileKind.ofExtension?_extension]
  rw [decoded]
  cases format with
  | text =>
    have read : session.directory.readText path = .ok (Program.toText words) := by
      rw [Directory.readText, encodes.content]
      simp only [Format.encode, Utf8.decode?_toUTF8]
    rw [decodeFile, read]
    show (Program.ofText (Program.toText words)).mapError _ = _
    rw [Program.ofText_toText, fitting]
    rfl
  | binary =>
    rw [decodeFile, encodes.content]
    show (Program.ofBytes (Program.toBytes words)).mapError _ = _
    rw [Program.ofBytes_toBytes, fitting]
    rfl

end Session

/-! ### Running -/

/-- How the output of a run is decorated. -/
def RunOptions.form (options : RunOptions) (colour : Bool) : Form :=
  if options.minimal then .minimal else .full colour

/-- A line of the output about a file. -/
def fileText (form : Form) (word : String) (path : Path) : String :=
  statusLine form.coloured .green word ("target " ++ path.text)

/-- The output of a run about its program: that it runs, the registers it leaves and how it ends. -/
def runText (form : Form) (engine : Engine) : String :=
  statusLine form.coloured .green "Running" "loaded program" ++ engine.machine.registerDump form ++
    match engine.status with
    | .faulted fault => statusLine form.coloured .red "Faulted" fault.message
    | .halted | .running =>
      statusLine form.coloured .cyan "Halted" s!"after {engine.steps} instructions"

/-- The last line of the output of a run, unless it ends with a fault. -/
def completedText (form : Form) (path : Path) (engine : Engine) : String :=
  match engine.status with
  | .faulted _ => ""
  | .halted | .running => fileText form "Completed" path

/-- The reply to a run that has ended with an engine and a trace, given the line that was printed
when its program was loaded. -/
def runReply (form : Form) (loading : String) (path : Path) (directory : Directory)
    (ended : Engine × String) : Reply where
  output := loading ++ (runText form ended.1 ++ completedText form path ended.1)
  trace := ended.2
  report := Session.endingReport ended.1
  directory

namespace Session

variable {session : Session}

theorem endingText_eq (session : Session) (form : Form) (path : Path) (engine : Engine)
    (before : String) :
    before ++ statusLine form.coloured .green "Running" "loaded program" ++
        engine.machine.registerDump form ++
        { session with colour := form.coloured }.endingText path engine =
      before ++ (runText form engine ++ completedText form path engine) := by
  rw [endingText, runText, completedText]
  cases engine.status with
  | faulted fault => simp only [String.append_assoc, String.append_empty]
  | _ =>
    simp only [String.append_assoc]
    rfl

/-- The reply to a run depends on the program that is loaded, but for the lines that name its
file. -/
theorem run_of_load (loaded : session.load path = .ok words) (options : RunOptions) :
    let form := options.form session.colour
    let engine := Engine.new words (options.budget.or session.settings.stepBudget)
    let loading := { session with colour := form.coloured }.loadingText path
    session.run path options =
      (engine.run (traceNotice form (options.trace || session.settings.trace)) "").map
        (runReply form loading path session.directory) := by
  intro form engine loading
  have same : { session with colour := form.coloured }.load path = .ok words := loaded
  unfold run
  simp only [show (if options.minimal then Form.minimal else .full session.colour) = form from rfl,
    same, endingText_eq]
  rfl

/-- A run of a file that is not loaded ends with the report why. -/
theorem run_of_load_error {report : Report} (loaded : session.load path = .error report)
    (options : RunOptions) :
    session.run path options = some (session.reply
      ({ session with colour := (options.form session.colour).coloured }.loadingText path)
      (some report)) := by
  let form := options.form session.colour
  have same : { session with colour := form.coloured }.load path = .error report := loaded
  unfold run
  simp only [show (if options.minimal then Form.minimal else .full session.colour) = form from rfl,
    same]
  rfl

theorem loadingText_of_source (extension : path.extension? = some "asm") (form : Form) :
    { session with colour := form.coloured }.loadingText path =
      fileText form "Assembling" path := by
  have kind : path.extension?.bind FileKind.ofExtension? = some .source := by
    rw [extension]
    rfl
  rw [loadingText, if_pos kind]
  rfl

theorem loadingText_of_program (extension : path.extension? = some format.extension) :
    session.loadingText path = "" := by
  have kind : path.extension?.bind FileKind.ofExtension? ≠ some .source := by
    rw [extension, Option.bind_some, FileKind.ofExtension?_extension]
    nofun
  rw [loadingText, if_neg kind]

/-- Source that assembles is compiled to a file that can be written. -/
theorem compile_of_write {destination : Option Path} {later : Directory}
    (assembles : session.directory.Assembles path words)
    (written : session.directory.write (destination.getD (path.withExtension format.extension))
      (format.encode words) = .ok later) :
    session.compile path destination format =
      { output := session.fileLine "Assembling" path ++
          statusLine session.colour .green "Finished" s!"{words.length} instructions" ++
          session.fileLine "Saved" (destination.getD (path.withExtension format.extension))
        trace := ""
        report := none
        directory := later } := by
  obtain ⟨program, assembled, rfl⟩ := assembleFile_of_assembles assembles
  unfold compile
  simp only [assembled, written]

end Session

/-! ### Source and program -/

/-- A run of source and a run of the program that it was compiled to end in the same way after the
same steps. Their outputs differ in the line about the source and in the name of the file that has
completed. -/
structure SameRun (form : Form) (start : Engine) (source target : Path) (first second : Reply) :
    Prop where
  exitStatus : second.exitStatus = first.exitStatus
  trace : second.trace = first.trace
  report : second.report = first.report
  output : ∃ count, (start.after count).status ≠ .running ∧
    first.output = fileText form "Assembling" source ++
      (runText form (start.after count) ++ completedText form source (start.after count)) ∧
    second.output =
      runText form (start.after count) ++ completedText form target (start.after count)

namespace Request

/-- What a request works with, its environment being well-formed. -/
def session (request : Request) (settings : Settings) : Session where
  directory := request.directory
  settings
  colour := request.environment.colour

-- How arguments are read is left open: what is proved holds for every way to read them.
variable {read : List ByteArray → Option Command} {request : Request} {settings : Settings}

/-- A request for anything but information is carried out with the settings of its environment. -/
theorem answer_of_settings (request : Request)
    (made : Settings.ofVariables request.environment = .ok settings)
    {command : Command} (asked : read request.arguments = some command)
    (work : command ≠ .version ∧ command ≠ .help) :
    request.answerBy read = ((request.session settings).carryOut command).map Answer.reply := by
  have serious : ¬(command = .version ∨ command = .help) := not_or.mpr work
  rw [answerBy, asked]
  show (request.carryOut command).map Answer.reply = _
  rw [carryOut, if_neg serious, made]
  rfl

/-- Runs of a source file and of a file with its program are alike, in directories that need have
nothing else in common. -/
theorem sameRun_of_answer (request : Request) {source target : Path} {arguments : List ByteArray}
    (made : Settings.ofVariables request.environment = .ok settings)
    (assembles : request.directory.Assembles source words)
    (encodes : directory.Encodes target format words) {options : RunOptions}
    (asked : read request.arguments = some (.run source options))
    (asked' : read arguments = some (.run target options)) {first : Reply}
    (answered : request.answerBy read = some (.reply first)) :
    ∃ second, answerBy { request with arguments, directory } read = some (.reply second) ∧
      SameRun (options.form request.environment.colour)
        (.new words (options.budget.or settings.stepBudget)) source target first second := by
  let other : Request := { request with arguments, directory }
  have loaded : (request.session settings).load source = .ok words :=
    Session.load_of_assembles assembles
  have loaded' : (other.session settings).load target = .ok words :=
    Session.load_of_encodes encodes assembles.fits
  have sourceAnswer := answer_of_settings request made asked ⟨nofun, nofun⟩
  have targetAnswer := answer_of_settings other made asked' ⟨nofun, nofun⟩
  rw [Session.carryOut, Session.run_of_load loaded,
    Session.loadingText_of_source assembles.extension, Option.map_map] at sourceAnswer
  rw [Session.carryOut, Session.run_of_load loaded',
    Session.loadingText_of_program encodes.extension, Option.map_map] at targetAnswer
  obtain ⟨⟨final, trace⟩, ended, replied⟩ :=
    Option.map_eq_some_iff.mp (sourceAnswer.symm.trans answered)
  obtain rfl := Answer.reply.inj replied
  obtain ⟨count, -, rfl, -, stopped⟩ := Engine.exists_after_of_follow _ _ _ _ _ _ ended
  exact ⟨_, targetAnswer.trans (Option.map_eq_some_iff.mpr ⟨_, ended, rfl⟩), rfl, rfl, rfl, count,
    stopped, rfl, String.empty_append⟩

/-- The command line asks for a source file to be compiled to a program file. -/
structure Compiles (read : List ByteArray → Option Command) (request : Request)
    (source target : Path) (format : Format) : Prop where
  asked : ∃ destination, read request.arguments = some (.compile source destination format) ∧
    destination.getD (source.withExtension format.extension) = target
  extension : target.extension? = some format.extension

/-- Compiling source that assembles writes the program, and nothing else. -/
theorem answer_of_compiles {source target : Path} {later : Directory}
    (made : Settings.ofVariables request.environment = .ok settings)
    (assembles : request.directory.Assembles source words)
    (compiles : request.Compiles read source target format)
    (written : request.directory.write target (format.encode words) = .ok later) :
    ∃ reply, request.answerBy read = some (.reply reply) ∧ reply.exitStatus = 0 ∧
      reply.directory = later := by
  obtain ⟨destination, asked, rfl⟩ := compiles.asked
  have compiled : (request.session settings).compile source destination format = _ :=
    Session.compile_of_write assembles written
  refine ⟨_, (answer_of_settings request made asked ⟨nofun, nofun⟩).trans
    (congrArg (fun reply => some (Answer.reply reply)) compiled), rfl, rfl⟩

/-- What comes of compiling source to a program file: it succeeds, it changes no other file, and
from then on a run of the program file is like a run of the source, before or after, that ends. -/
structure Faithful (read : List ByteArray → Option Command) (request : Request)
    (settings : Settings) (source target : Path) (words : List Word) (reply : Reply) : Prop where
  succeeds : reply.exitStatus = 0
  changes : ∃ folder name, request.directory.LeadsTo target folder name ∧
    Directory.SameBut (folder ++ [name]) request.directory reply.directory
  runs : ∀ (options : RunOptions) (toRun toRunTarget : List ByteArray) (directory : Directory),
    read toRun = some (.run source options) →
    read toRunTarget = some (.run target options) →
    directory = request.directory ∨ directory = reply.directory →
    ∀ first, answerBy { request with arguments := toRun, directory } read = some (.reply first) →
      ∃ second,
        answerBy { request with arguments := toRunTarget, directory := reply.directory } read =
          some (.reply second) ∧
        SameRun (options.form request.environment.colour)
          (.new words (options.budget.or settings.stepBudget)) source target first second

/-- **A compiled program runs like its source**, whether it is compiled to text or to bytes, and
however it is run. -/
theorem compiled_runs_alike (read : List ByteArray → Option Command) (request : Request)
    (made : Settings.ofVariables request.environment = .ok settings) {source target : Path}
    (assembles : request.directory.Assembles source words)
    (compiles : request.Compiles read source target format)
    (writable : ∃ later, request.directory.write target (format.encode words) = .ok later) :
    ∃ reply, request.answerBy read = some (.reply reply) ∧
      request.Faithful read settings source target words reply := by
  obtain ⟨later, written⟩ := writable
  obtain ⟨reply, answered, succeeds, rfl⟩ := answer_of_compiles made assembles compiles written
  obtain ⟨folder, name, leads, -, same, -⟩ := Directory.sameBut_of_write written
  have encodes : reply.directory.Encodes target format words :=
    ⟨compiles.extension, Directory.read_of_write written⟩
  refine ⟨reply, answered, succeeds, ⟨folder, name, leads, same⟩, ?_⟩
  intro options toRun toRunTarget directory asked asked' whichever first answered
  have readable : directory.Assembles source words := by
    rcases whichever with rfl | rfl
    · exact assembles
    · exact assembles.of_write written compiles.extension
  exact sameRun_of_answer { request with arguments := toRun, directory } made readable encodes asked
    asked' answered

/-- A source file with a CRLF line end is compiled to bytes in a folder, under a step budget. -/
theorem compiled_runs_alike_in_folder :
    let source : Path := ⟨Path.ascii "-a.asm"⟩
    let target : Path := ⟨Path.ascii "out/b.hbz"⟩
    let words : List Word := [0x1107, 0xF000]
    let request : Request :=
      { arguments := ["compile", "-f=binary", "--", "-a.asm", "out/b.hbz"].map String.toUTF8
        environment := ⟨none, some " 9\n".toUTF8, none⟩
        directory :=
          ⟨[[Path.ascii "out"]], [([Path.ascii "-a.asm"], "Load R1, 7\r\nHALT".toUTF8)]⟩ }
    Settings.ofVariables request.environment = .ok ⟨false, some 9⟩ ∧
      request.directory.Assembles source words ∧
      request.Compiles Command.ofArguments? source target .binary ∧
      (∃ later, request.directory.write target (Format.binary.encode words) = .ok later) ∧
      ∃ reply, request.answer = some (.reply reply) ∧
        request.Faithful Command.ofArguments? ⟨false, some 9⟩ source target words reply := by
  intro source target words request
  have made : Settings.ofVariables request.environment = .ok ⟨false, some 9⟩ := by decide +kernel
  have assembles : request.directory.Assembles source words := by
    refine ⟨by decide +kernel, "Load R1, 7\r\nHALT", ⟨words, .empty⟩, ?_, by decide +kernel, rfl⟩
    decide +kernel
  have compiles : request.Compiles Command.ofArguments? source target .binary :=
    ⟨⟨some target, by decide +kernel, rfl⟩, by decide +kernel⟩
  have writable : ∃ later,
      request.directory.write target (Format.binary.encode words) = .ok later := ⟨_, rfl⟩
  exact ⟨made, assembles, compiles, writable,
    compiled_runs_alike Command.ofArguments? request made assembles compiles writable⟩

end Request

end Asm16
