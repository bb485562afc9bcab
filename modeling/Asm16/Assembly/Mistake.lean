/-
**What can be wrong with assembly source.**

* `Mistake` — the causes for which a source is refused.
* `Mistake.message`, `code`, `help`, `caption` — the words in which a cause is reported.
* `SourceError` — a mistake with its line and its place in the source.
-/

import Asm16.Source
import Asm16.Word

namespace Asm16

/-- What an operand of an instruction has to be. -/
inductive OperandKind
  | register
  | value
deriving DecidableEq, Repr

/-- The words for a kind of operand. -/
def OperandKind.description : OperandKind → String
  | register => "register"
  | value => "label or decimal literal"

/-- A cause for which a source is refused. -/
inductive Mistake
  | duplicateLabel (name : String) (first : Nat)
  | unresolvedOperand (token : String)
  | operandOutOfRange (token : String) (bits : Nat)
  | unknownInstruction (token : String)
  | wrongOperandCount (mnemonic : String) (expected found : Nat)
  | operandKindMismatch (expected : OperandKind) (found : String)
  | invalidLabel (name : String)
  | labelPastEnd (name : String)
  | programTooLarge (length : Nat)
deriving DecidableEq, Repr

namespace Mistake

/-- What is wrong. -/
def message : Mistake → String
  | duplicateLabel name first =>
    s!"duplicate label `{name}`, first declared at address {first}"
  | unresolvedOperand token => s!"unresolved operand `{token}`"
  | operandOutOfRange token bits => s!"operand `{token}` does not fit in {bits} bits"
  | unknownInstruction token => s!"unknown instruction `{token}`"
  | wrongOperandCount mnemonic expected found =>
    s!"{mnemonic} takes {expected} operand(s), found {found}"
  | operandKindMismatch expected found =>
    s!"expected {expected.description}, found `{found}`"
  | invalidLabel name => s!"invalid label name `{name}`"
  | labelPastEnd name => s!"label `{name}` follows the last addressable instruction"
  | programTooLarge length =>
    s!"program has {length} instructions, memory holds 4096"

/-- The name under which a cause is documented. -/
def code : Mistake → String
  | duplicateLabel .. => "asm::duplicate_label"
  | unresolvedOperand _ => "asm::unresolved_operand"
  | operandOutOfRange .. => "asm::operand_range"
  | unknownInstruction _ => "asm::unknown_instr"
  | wrongOperandCount .. => "asm::operand_count"
  | operandKindMismatch .. => "asm::operand_kind"
  | invalidLabel _ => "asm::invalid_label"
  | labelPastEnd _ => "asm::label_past_end"
  | programTooLarge _ => "asm::too_large"

/-- How to avoid the mistake. -/
def help : Mistake → String
  | duplicateLabel .. => "labels may only be declared once per file"
  | unresolvedOperand _ =>
    "operands must be a register (R0-R15), a declared label or a decimal literal"
  | operandOutOfRange .. =>
    "immediates and STORE/JMPZ/JMPNZ addresses range 0-255, JMP addresses 0-4095"
  | unknownInstruction _ =>
    "available instructions are LOAD, STORE, ADD, SUB, MUL, DIV, JMP, JMPZ, JMPNZ and HALT"
  | wrongOperandCount .. => "check the number of operands for this instruction"
  | operandKindMismatch .. => "check the type of operands allowed for this instruction"
  | invalidLabel _ =>
    "labels are identifiers made of letters, digits and `_`, and may not name a register"
  | labelPastEnd _ => "label addresses must be below 4096"
  | programTooLarge _ => "split the program or shorten it"

/-- What is written beside the stretch of source at fault. -/
def caption : Mistake → String
  | duplicateLabel .. => "duplicate label"
  | unresolvedOperand _ => "unresolved operand"
  | operandOutOfRange .. => "out-of-range operand"
  | unknownInstruction _ => "unknown instruction"
  | wrongOperandCount .. => "this instruction"
  | operandKindMismatch .. => "unexpected operand"
  | invalidLabel _ => "invalid label"
  | labelPastEnd _ => "would point past the end of memory"
  | programTooLarge _ => "first instruction past the end of memory"

end Mistake

/-- A mistake, the line it is in and the stretch of source at fault. -/
structure SourceError where
  line : Nat
  span : Span
  mistake : Mistake
deriving DecidableEq, Repr

/-- A mistake reported for the source of the given file. -/
def SourceError.message (file : String) (error : SourceError) : String :=
  s!"{file}:{error.line}: {error.mistake.message}"

end Asm16
