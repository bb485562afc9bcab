/-
**The trace of a run.**

* `Event.line` — an executed instruction as a line of the trace.
* `Fault.line` — the fault that ended a run as a line of the trace.
* `Notice.line` — either of them, as it comes from the run.
-/

import Asm16.Machine.Event
import Asm16.Terminal.Style

namespace Asm16

open Terminal

/-- The address of an instruction in the full form of a trace. -/
def addressText (pc : Word) : String :=
  "0x" ++ Numeral.hexadecimal 3 pc.toNat

/-- An effect in the full form of a trace: control flow stands out, what did not happen fades. -/
def Effect.paintedText (effect : Effect) (colour : Bool) : String :=
  match effect with
  | jump _ | halt => Style.cyan.paintIf colour effect.text
  | notTaken => Style.dimmed.paintIf colour effect.text
  | register .. | memory .. => effect.text

/-- An executed instruction as a line of the trace. The minimal form leaves out the word. -/
def Event.line (form : Form) (event : Event) : String :=
  match form with
  | .minimal =>
    s!"{event.step} {event.pc.toNat} {event.instr.text} ; {event.effect.text}"
  | .full colour =>
    " ".intercalate
      [Style.dimmed.paintIf colour (padLeft 6 (toString event.step)),
        Style.bold.paintIf colour (addressText event.pc),
        Style.dimmed.paintIf colour (Numeral.binary 16 event.word.toNat),
        Style.blue.paintIf colour (padRight 18 event.instr.text),
        event.effect.paintedText colour]

/-- The fault that ended a run as a line of the trace. -/
def Fault.line (form : Form) (pc : Word) (fault : Fault) : String :=
  match form with
  | .minimal => s!"fault at {pc.toNat}: {fault.message}"
  | .full colour =>
    " ".intercalate
      [Style.red.paintIf colour (padLeft 6 "fault"), Style.bold.paintIf colour (addressText pc),
        fault.message]

/-- What a run reports as a line of the trace. -/
def Notice.line (form : Form) : Notice → String
  | executed event => event.line form
  | faulted pc fault => fault.line form pc

end Asm16
