/-
**Reports on a terminal.**

* `Report.lines` — the text of a report as it stands on a terminal.
* `Report.summary` — the lines of a report joined to one.
* `Report.text` — a report as it is printed.
-/

import Asm16.CommandLine.Report
import Asm16.Shell.Wrap

namespace Asm16

namespace Text

/-- The maximal runs of a text without blanks. -/
def words (text : List Char) : List (List Char) :=
  (text.splitBy fun c next => isBlank c == isBlank next).filter fun run => !run.all isBlank

/-- The text on one line: its words with a single space between them. -/
def unwrap (text : String) : String :=
  " ".intercalate ((words text.toList).map String.ofList)

end Text

namespace Report

/-- The number of columns that the text of a report may take beside its margin. -/
def textWidth : Nat := 74

/-- The text of a report in lines that fit a terminal. -/
def lines (report : Report) : List String :=
  (report.message.toList.splitOn '\n').flatMap fun line =>
    (Terminal.wrap textWidth line).map String.ofList

/-- The lines of a report joined to one, with a single space wherever one ended or blanks stood. -/
def summary (report : Report) : String :=
  Text.unwrap (" ".intercalate report.lines)

/-- An error as it is printed: its text beside a margin, under the name it is documented under. -/
def text (report : Report) : String :=
  let heading := match report.code with
    | some code => s!"Error: {code}\n\n"
    | none => "Error: "
  heading ++ "  × " ++ "\n  │ ".intercalate report.lines ++ "\n"

end Report

end Asm16
