/-
**Instructions.**

* `Opcode` — the ten operations, with their four bits and their mnemonics.
* `Instr` — an instruction with exactly the operands its operation uses.
* `Instr.text` — an instruction as assembly source: its mnemonic and its operands.
-/

import Asm16.Register
import Asm16.Word

namespace Asm16

/-- The arithmetic operations on two registers. -/
inductive Arithmetic
  | add
  | sub
  | mul
  | div
deriving DecidableEq, Repr

/-- What a conditional jump asks of the register it tests. -/
inductive Condition
  | zero
  | nonzero
deriving DecidableEq, Repr

/-- The operation of an instruction. -/
inductive Opcode
  | load
  | store
  | arithmetic (operation : Arithmetic)
  | jump
  | branch (condition : Condition)
  | halt
deriving DecidableEq, Repr

namespace Opcode

/-- Every operation, in ascending order of its bits. -/
def all : List Opcode :=
  [load, store, arithmetic .add, arithmetic .sub, arithmetic .mul, arithmetic .div, jump,
    branch .zero, branch .nonzero, halt]

/-- The four bits of an operation, as a number. -/
def bits : Opcode → Nat
  | load => 1
  | store => 2
  | arithmetic .add => 3
  | arithmetic .sub => 4
  | arithmetic .mul => 5
  | arithmetic .div => 6
  | jump => 8
  | branch .zero => 9
  | branch .nonzero => 10
  | halt => 15

/-- The name of an operation in assembly source, in capitals. -/
def mnemonic : Opcode → String
  | load => "LOAD"
  | store => "STORE"
  | arithmetic .add => "ADD"
  | arithmetic .sub => "SUB"
  | arithmetic .mul => "MUL"
  | arithmetic .div => "DIV"
  | jump => "JMP"
  | branch .zero => "JMPZ"
  | branch .nonzero => "JMPNZ"
  | halt => "HALT"

/-- The number of operands of an operation in assembly source. -/
def arity : Opcode → Nat
  | load | store | branch _ => 2
  | arithmetic _ => 3
  | jump => 1
  | halt => 0

/-- The operation with the given bits, if there is one. -/
def ofBits? (bits : Nat) : Option Opcode :=
  all.find? fun opcode => opcode.bits == bits

/-- The bits of an operation are those of no other one. -/
theorem ofBits?_bits (opcode : Opcode) : ofBits? opcode.bits = some opcode := by
  cases opcode with
  | arithmetic operation => cases operation <;> rfl
  | branch condition => cases condition <;> rfl
  | _ => rfl

/-- An operation has four bits. -/
theorem bits_lt (opcode : Opcode) : opcode.bits < 16 := by
  cases opcode with
  | arithmetic operation => cases operation <;> decide
  | branch condition => cases condition <;> decide
  | _ => decide

/-- The operation a text names, in any mixture of ASCII cases. -/
def ofMnemonic? (text : String) : Option Opcode :=
  all.find? fun opcode => opcode.mnemonic.toList == text.toList.map Char.toUpper

end Opcode

/-- An instruction. Conditional jumps and stores reach the first 256 cells only. -/
inductive Instr
  | load (destination : Register) (value : UInt8)
  | store (source : Register) (address : UInt8)
  | arithmetic (operation : Arithmetic) (destination left right : Register)
  | jump (target : Address)
  | branch (condition : Condition) (tested : Register) (target : UInt8)
  | halt
deriving DecidableEq, Repr

namespace Instr

/-- The operation of an instruction. -/
def opcode : Instr → Opcode
  | load .. => .load
  | store .. => .store
  | arithmetic operation .. => .arithmetic operation
  | jump _ => .jump
  | branch condition .. => .branch condition
  | halt => .halt

/-- The operands of an instruction in assembly source: register names and decimal numerals. -/
def operands : Instr → List String
  | load register byte | store register byte | branch _ register byte =>
    [register.name, toString byte.toNat]
  | arithmetic _ destination left right => [destination.name, left.name, right.name]
  | jump target => [toString target.val]
  | halt => []

/-- An instruction in assembly source: its mnemonic, then its operands parted by commas. -/
def text (instr : Instr) : String :=
  match instr.operands with
  | [] => instr.opcode.mnemonic
  | operands => instr.opcode.mnemonic ++ " " ++ ", ".intercalate operands

end Instr

end Asm16
