/-
**An option for the budget and the variable for it.**

* `Variables.LimitsWell` — the variable that limits runs holds a number, if it is set to a text.
* `Session.run_of_budget` — a run with an option for its budget is the same under any other budget
  in the settings.
* `Session.code_ne_of_run` — what ends a run is never reported as a mistake in the settings.
* `Request.answer_withoutBudget_iff` — a run with an option for its budget is answered as if the
  variable were unset exactly when the variable holds a number or no text; otherwise nothing is run.
* `Request.overriding_option_is_refused` — so the option does not help against a malformed variable.
-/

import Asm16.Proofs.CommandLine.CompileRun
import Asm16.Proofs.Engine.Lifetime

namespace Asm16

/-! ### The variable that limits runs -/

namespace Variables

/-- The variable that limits runs holds a number of 64 bits between blanks, if it is set to a
text. -/
def LimitsWell (environment : Variables) : Prop :=
  ∀ text, environment.stepBudget.bind Utf8.decode? = some text →
    ∃ budget, Numeral.unsigned? Numeral.largest64 (Text.trim text.toList) = some budget

/-- The environment without the variable that limits runs. -/
def withoutBudget (environment : Variables) : Variables :=
  { environment with stepBudget := none }

end Variables

namespace Settings

variable {environment : Variables}

/-- Without the variable that limits runs the settings are the same, but for the limit. -/
theorem ofVariables_of_limitsWell (limitsWell : environment.LimitsWell) :
    ∃ settings, ofVariables environment = .ok settings ∧
      ofVariables environment.withoutBudget = .ok { settings with stepBudget := none } := by
  cases set : environment.stepBudget.bind Utf8.decode? with
  | none =>
    refine ⟨⟨environment.trace.bind Utf8.decode? == some "1", none⟩, ?_, rfl⟩
    simp only [ofVariables, set]
  | some text =>
    obtain ⟨budget, number⟩ := limitsWell text set
    refine ⟨⟨environment.trace.bind Utf8.decode? == some "1", some budget⟩, ?_, rfl⟩
    simp only [ofVariables, set, stepBudgetOfText, number]

/-- A text that is no number cannot limit runs. -/
theorem ofVariables_of_malformed {text : String}
    (set : environment.stepBudget.bind Utf8.decode? = some text)
    (malformed : Numeral.unsigned? Numeral.largest64 (Text.trim text.toList) = none) :
    ofVariables environment = .error (.invalidStepBudget text) := by
  unfold ofVariables
  simp only [set, stepBudgetOfText, malformed]

end Settings

/-! ### Runs with an option for the budget -/

namespace Session

variable {session : Session} {path : Path} {options : RunOptions}

/-- An option for the budget takes precedence over the budget of the settings. -/
theorem run_of_budget (session : Session) {budget : Nat} (given : options.budget = some budget)
    (stepBudget : Option Nat) :
    { session with settings := { session.settings with stepBudget } }.run path options =
      session.run path options := by
  unfold run
  simp only [given]
  rfl

/-- A run that halts succeeds. -/
theorem exists_run_of_halted (session : Session) (options : RunOptions) {words : List Word}
    {count : Nat} (loaded : session.load path = .ok words) :
    let engine := Engine.new words (options.budget.or session.settings.stepBudget)
    (engine.after count).status = .halted → count ≤ engine.stepLimit →
      ∃ reply, session.run path options = some reply ∧ reply.exitStatus = 0 := by
  intro engine halted le
  have ran : engine.RunsTo _ _ := Engine.runsTo_of_stopped (by rw [halted]; nofun) le
  refine ⟨_, (run_of_load loaded options).trans (congrArg _ (ran _ _)), ?_⟩
  rw [Reply.exitStatus, runReply, endingReport, halted]
  rfl

/-- A file that cannot be decoded is not reported as a mistake in the settings. -/
theorem code_of_decodeFile {format : Format} {report : Report}
    (refused : session.decodeFile path format = .error report) : report.code = none := by
  cases format with
  | text | binary =>
    rcases Except.bind_eq_error_iff.mp refused with failed | ⟨content, -, failed⟩
    · obtain ⟨error, -, rfl⟩ := Except.exists_of_mapError_eq_error failed
      rfl
    · obtain ⟨error, -, rfl⟩ := Except.exists_of_mapError_eq_error failed
      rfl

/-- A source that cannot be assembled is not reported as a mistake in the settings. -/
theorem code_ne_of_assembleFile {report : Report}
    (refused : session.assembleFile path = .error report) :
    report.code ≠ some "env::step_budget" := by
  rcases Except.bind_eq_error_iff.mp refused with failed | ⟨source, -, failed⟩
  · obtain ⟨error, -, rfl⟩ := Except.exists_of_mapError_eq_error failed
    nofun
  · obtain ⟨error, -, rfl⟩ := Except.exists_of_mapError_eq_error failed
    show some error.mistake.code ≠ _
    cases error.mistake <;> simp [Mistake.code]

/-- A program that cannot be loaded is not reported as a mistake in the settings. -/
theorem code_ne_of_load {report : Report} (refused : session.load path = .error report) :
    report.code ≠ some "env::step_budget" := by
  unfold load at refused
  split at refused
  · cases refused
    nofun
  · split at refused
    · cases assembled : session.assembleFile path with
      | error other =>
        rw [assembled] at refused
        cases refused
        exact code_ne_of_assembleFile assembled
      | ok program =>
        rw [assembled] at refused
        cases refused
    · rw [code_of_decodeFile refused]
      nofun
    · rw [← Except.error.inj refused]
      nofun

/-- What ends a run is not reported as a mistake in the settings. -/
theorem code_ne_of_run {reply : Reply} {report : Report}
    (ran : session.run path options = some reply) (reported : reply.report = some report) :
    report.code ≠ some "env::step_budget" := by
  cases loaded : session.load path with
  | error refused =>
    rw [run_of_load_error loaded] at ran
    obtain rfl := Option.some.inj ran
    obtain rfl := Option.some.inj reported
    exact code_ne_of_load loaded
  | ok words =>
    rw [run_of_load loaded] at ran
    obtain ⟨⟨final, trace⟩, -, rfl⟩ := Option.map_eq_some_iff.mp ran
    have ended : endingReport final = some report := reported
    unfold endingReport at ended
    split at ended
    · cases ended
      show some "run::fault" ≠ _
      decide
    · cases ended
    · cases ended

end Session

/-! ### Requests for a run -/

namespace Request

variable {read : List ByteArray → Option Command} {request : Request} {path : Path}
  {options : RunOptions}

/-- The request in an environment without the variable that limits runs. -/
def withoutBudget (request : Request) : Request :=
  { request with environment := request.environment.withoutBudget }

/-- No command is carried out while the variable that limits runs is malformed. -/
theorem answer_of_malformed {text : String} {command : Command}
    (asked : read request.arguments = some command)
    (work : command ≠ .version ∧ command ≠ .help)
    (set : request.environment.stepBudget.bind Utf8.decode? = some text)
    (malformed : Numeral.unsigned? Numeral.largest64 (Text.trim text.toList) = none) :
    request.answerBy read = some (.reply {
      output := ""
      trace := ""
      report := some (.ofSettingsError (.invalidStepBudget text))
      directory := request.directory }) := by
  have serious : ¬(command = .version ∨ command = .help) := not_or.mpr work
  rw [answerBy, asked]
  show (request.carryOut command).map Answer.reply = _
  rw [carryOut, if_neg serious, Settings.ofVariables_of_malformed set malformed]
  rfl

/-- Under a variable that holds a number, an option for the budget is all that limits a run. -/
theorem answer_of_limitsWell
    (asked : read request.arguments = some (.run path options))
    {budget : Nat} (given : options.budget = some budget)
    (limitsWell : request.environment.LimitsWell) :
    request.answerBy read = request.withoutBudget.answerBy read := by
  obtain ⟨settings, made, madeWithout⟩ := Settings.ofVariables_of_limitsWell limitsWell
  rw [answer_of_settings request made asked ⟨nofun, nofun⟩,
    answer_of_settings request.withoutBudget madeWithout asked ⟨nofun, nofun⟩]
  exact congrArg (Option.map Answer.reply)
    (Session.run_of_budget (request.session settings) given none).symm

/-- A run in an environment without the variable that limits runs is never refused for it. -/
theorem answer_ne_of_malformed
    (asked : read request.arguments = some (.run path options)) {text : String}
    (set : request.environment.stepBudget.bind Utf8.decode? = some text)
    (malformed : Numeral.unsigned? Numeral.largest64 (Text.trim text.toList) = none) :
    request.answerBy read ≠ request.withoutBudget.answerBy read := by
  have made : Settings.ofVariables request.withoutBudget.environment = .ok ⟨_, none⟩ := rfl
  rw [answer_of_malformed asked ⟨nofun, nofun⟩ set malformed,
    answer_of_settings request.withoutBudget made asked ⟨nofun, nofun⟩]
  intro same
  -- The report of the refusal would be one that ends a run.
  obtain ⟨reply, ran, replied⟩ := Option.map_eq_some_iff.mp same.symm
  obtain rfl := Answer.reply.inj replied
  exact Session.code_ne_of_run ran rfl rfl

/-- **A run with an option for its budget is answered as if the variable for it were unset exactly
when the variable holds a number or no text.** Under any other variable nothing is run. -/
theorem answer_withoutBudget_iff (read : List ByteArray → Option Command) (request : Request)
    {path : Path} {options : RunOptions} {budget : Nat}
    (asked : read request.arguments = some (.run path options))
    (given : options.budget = some budget) :
    (request.answerBy read = request.withoutBudget.answerBy read ↔
        request.environment.LimitsWell) ∧
      ∀ text, request.environment.stepBudget.bind Utf8.decode? = some text →
        Numeral.unsigned? Numeral.largest64 (Text.trim text.toList) = none →
        request.answerBy read = some (.reply {
          output := ""
          trace := ""
          report := some (.ofSettingsError (.invalidStepBudget text))
          directory := request.directory }) := by
  refine ⟨⟨fun same text set => ?_, answer_of_limitsWell asked given⟩,
    fun text => answer_of_malformed asked ⟨nofun, nofun⟩⟩
  cases number : Numeral.unsigned? Numeral.largest64 (Text.trim text.toList) with
  | some budget => exact ⟨budget, rfl⟩
  | none => exact absurd same (answer_ne_of_malformed asked set number)

/-- A number between blanks leaves a run of a file that does not exist to its option. -/
theorem answer_withoutBudget_of_padded_number :
    let options : RunOptions := ⟨some 5, true, false⟩
    let request : Request :=
      { arguments := ["run", "--trace", "-b", "5", "b.asm"].map String.toUTF8
        environment := ⟨none, some " +9\n".toUTF8, none⟩
        directory := ⟨[], []⟩ }
    Command.ofArguments? request.arguments = some (.run ⟨Path.ascii "b.asm"⟩ options) ∧
      options.budget = some 5 ∧ request.answer = request.withoutBudget.answer := by
  intro options request
  have asked : Command.ofArguments? request.arguments =
      some (.run ⟨Path.ascii "b.asm"⟩ options) := by decide +kernel
  have limitsWell : request.environment.LimitsWell := by
    intro text set
    obtain rfl : " +9\n" = text := Option.some.inj (Eq.trans (by decide +kernel) set)
    exact ⟨9, by decide +kernel⟩
  have answers := answer_withoutBudget_iff Command.ofArguments? request asked rfl
  exact ⟨asked, rfl, answers.1.mpr limitsWell⟩

/-- **An option for the budget does not help against a malformed variable**: a program of one
instruction is refused under the variable and comes to its end without it. -/
theorem overriding_option_is_refused :
    let path : Path := ⟨Path.ascii "b.asm"⟩
    let options : RunOptions := ⟨some 5, false, true⟩
    let request : Request :=
      { arguments := ["run", "b.asm", "--budget", "5", "-m"].map String.toUTF8
        environment := ⟨none, some "50x".toUTF8, none⟩
        directory := ⟨[], [([Path.ascii "b.asm"], "HALT\n".toUTF8)]⟩ }
    Command.ofArguments? request.arguments = some (.run path options) ∧
      options.budget = some 5 ∧
      (∃ reply, request.answer = some (.reply reply) ∧ reply.exitStatus = 1 ∧
        reply.report = some (.ofSettingsError (.invalidStepBudget "50x"))) ∧
      ∃ reply, request.withoutBudget.answer = some (.reply reply) ∧ reply.exitStatus = 0 := by
  intro path options request
  have asked : Command.ofArguments? request.arguments = some (.run path options) := by
    decide +kernel
  have set : request.environment.stepBudget.bind Utf8.decode? = some "50x" := by decide +kernel
  have refused := answer_of_malformed asked ⟨nofun, nofun⟩ set (by decide +kernel)
  have text : request.directory.readText path = .ok "HALT\n" := by decide +kernel
  have assembled : assemble "HALT\n" = .ok ⟨[0xF000], .empty⟩ := by decide +kernel
  have assembles : request.withoutBudget.directory.Assembles path [0xF000] :=
    ⟨by decide +kernel, _, _, text, assembled, rfl⟩
  have made : Settings.ofVariables request.withoutBudget.environment = .ok ⟨false, none⟩ := rfl
  have halted : ((Engine.new [0xF000] (some 5)).after 1).status = .halted :=
    Engine.halted_after_one (by decide) (by decide +kernel) (by decide)
  obtain ⟨reply, ran, succeeds⟩ := Session.exists_run_of_halted
    (request.withoutBudget.session ⟨false, none⟩) options (Session.load_of_assembles assembles)
    halted (by decide +kernel)
  refine ⟨asked, rfl, ⟨_, refused, rfl, rfl⟩, reply, ?_, succeeds⟩
  exact (answer_of_settings request.withoutBudget made asked ⟨nofun, nofun⟩).trans
    (congrArg (Option.map Answer.reply) ran)

end Request

end Asm16
