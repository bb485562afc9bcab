/-
**Reported errors.**

* `Report` — an error as it is shown to the user: the name it is documented under and its text.
* `Report.ofFileError`, `ofSourceError`, `ofProgramError`, `ofSettingsError`, `ofFault` — the
  reports of everything that can end a command.
-/

import Asm16.Assembly.Mistake
import Asm16.CommandLine.Directory
import Asm16.Machine.Event
import Asm16.Program
import Asm16.Settings

namespace Asm16

/-- An error as it is shown to the user: the name it is documented under, if any, and its text. -/
structure Report where
  code : Option String
  message : String
deriving DecidableEq, Repr

namespace Report

/-- The report of a failed access to a file. -/
def ofFileError (error : FileError) : Report := ⟨none, error.message⟩

/-- The report of a file whose kind cannot be told. -/
def noExtension : Report := ⟨none, "File has no extension. Exiting..."⟩

/-- The report of a file of no known kind. -/
def unknownExtension : Report := ⟨none, "File has unknown extension. Exiting..."⟩

/-- The report of a mistake in the source of a file. -/
def ofSourceError (path : Path) (error : SourceError) : Report :=
  ⟨some error.mistake.code, error.message path.text⟩

/-- The report of a file that is not an encoded program. -/
def ofProgramError (error : ProgramError) : Report := ⟨none, error.message⟩

/-- The report of settings that cannot be made. -/
def ofSettingsError (error : SettingsError) : Report :=
  ⟨some "env::step_budget", error.message⟩

/-- The report of a run that ended with a fault at an address. -/
def ofFault (pc : Address) (fault : Fault) : Report :=
  ⟨some "run::fault", s!"Program faulted at address {pc.val}: {fault.message}"⟩

end Report

end Asm16
