/-
**A command line as this program reads it.**

* `Request.answer` — what comes of a command line whose arguments are read by
  `Command.ofArguments?`.
-/

import Asm16.CommandLine.Answer
import Asm16.Shell.Arguments
import Asm16.Shell.ReportText

namespace Asm16

/-- What comes of a command line, unless it starts a run that does not end. -/
def Request.answer (request : Request) : Option Answer :=
  request.answerBy Command.ofArguments?

end Asm16
