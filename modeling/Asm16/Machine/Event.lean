/-
**What happens in a run.**

* `Fault` — why a run stops without a `HALT`.
* `Effect` — what one instruction changed.
* `Event` — an executed instruction with its number, its place and its effect.
* `Notice` — what a run reports while it goes on: executed instructions and, at most once, a fault.
-/

import Asm16.Instr.Codec
import Asm16.Machine

namespace Asm16

/-- Why a run stops without a `HALT`. -/
inductive Fault
  | unknownOpcode (opcode : UInt8) (pc : Word)
  | divisionByZero (pc : Word)
  | access (error : AccessError)
  | programCounterOverflow
  | stepBudgetExceeded (budget : Nat)
deriving DecidableEq, Repr

/-- The words in which a fault is reported. -/
def Fault.message : Fault → String
  | unknownOpcode opcode pc =>
    s!"unknown opcode {Numeral.binary 4 opcode.toNat} at address {pc.toNat}"
  | divisionByZero pc => s!"division by zero at address {pc.toNat}"
  | access error => error.message
  | programCounterOverflow => "program counter ran past the end of memory"
  | stepBudgetExceeded budget => s!"step budget of {budget} instructions exceeded"

/-- What an instruction changed: a register or a memory cell with the value before and after, the
program counter by a jump, or nothing. -/
inductive Effect
  | register (register : Register) (before after : Int32)
  | memory (address before after : Word)
  | jump (target : Word)
  | notTaken
  | halt
deriving DecidableEq, Repr

/-- The words in which an effect is reported. -/
def Effect.text : Effect → String
  | register changed before after =>
    s!"{changed.name} = {after.toInt} (was {before.toInt})"
  | memory address before after =>
    s!"mem[{address.toNat}] = {after.toNat} (was {before.toNat})"
  | jump target => s!"jump to {target.toNat}"
  | notTaken => "fall through"
  | halt => "halt"

/-- An executed instruction: its number counted from one, its address, its word, what the word
decodes to and what it changed. -/
structure Event where
  step : Nat
  pc : Word
  word : Word
  instr : Instr
  effect : Effect
deriving DecidableEq, Repr

/-- What a run reports while it goes on. -/
inductive Notice
  | executed (event : Event)
  | faulted (pc : Word) (fault : Fault)
deriving DecidableEq, Repr

end Asm16
