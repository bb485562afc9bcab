/-
**The state of the machine.**

* `Machine` — memory, program counter and registers; instructions and data share the memory.
* `Machine.register`, `setRegister`, `cell`, `setCell` — access by registers and addresses, which
  are always in bounds.
* `Machine.Outcome` — what comes of an action on a machine: an answer or a refusal, and in either
  case the machine that the action leaves.
* `Machine.readRegister`, `writeRegister`, `readMemory`, `writeMemory`, `load` — access by
  arbitrary indexes, refused out of bounds with an `AccessError`.
-/

import Asm16.Register
import Asm16.Word

namespace Asm16

/-- An access out of bounds. -/
inductive AccessError
  | invalidRegister (index : Nat)
  | invalidAddress (address : Nat)
  | programTooLarge (length : Nat)
deriving DecidableEq, Repr

/-- The words in which an access out of bounds is reported. -/
def AccessError.message : AccessError → String
  | invalidRegister index => s!"register index {index} out of range"
  | invalidAddress address => s!"memory address {address} out of range"
  | programTooLarge length => s!"program of {length} words does not fit in memory"

/-- Memory, program counter and registers. The program counter is the address of the next
instruction. -/
structure Machine where
  memory : Vector Word 4096
  pc : Address
  registers : Vector Int32 16
deriving DecidableEq

namespace Machine

/-- What comes of an action on a machine: an answer, or why it is refused, and in either case the
machine that the action leaves. -/
abbrev Outcome (ε α : Type) : Type := EStateM.Result ε Machine α

/-- A caller that gives up when an access is refused asks for the machine otherwise only. -/
instance : Coe (Outcome AccessError Unit) (Except AccessError Machine) where
  coe
    | .ok _ machine => .ok machine
    | .error error _ => .error error

/-- The machine with zeros in memory and in the registers, at address zero. -/
def fresh : Machine where
  memory := Vector.replicate 4096 0
  pc := 0
  registers := Vector.replicate 16 0

/-! ### Access in bounds -/

/-- The value of a register. -/
def register (machine : Machine) (register : Register) : Int32 :=
  machine.registers[register.index]

/-- The machine with a new value in a register. -/
def setRegister (machine : Machine) (register : Register) (value : Int32) : Machine :=
  { machine with registers := machine.registers.set register.index value }

/-- The word in a memory cell. -/
def cell (machine : Machine) (address : Address) : Word :=
  machine.memory[address]

@[simp] theorem register_fresh (register : Register) : fresh.register register = 0 :=
  Vector.getElem_replicate register.index.isLt

@[simp] theorem cell_fresh (address : Address) : fresh.cell address = 0 :=
  Vector.getElem_replicate address.isLt

/-- The machine with a new word in a memory cell. -/
def setCell (machine : Machine) (address : Address) (word : Word) : Machine :=
  { machine with memory := machine.memory.set address word }

/-- Changing a register changes no other one. -/
theorem register_setRegister (machine : Machine) (changed other : Register) (value : Int32) :
    (machine.setRegister changed value).register other =
      if changed = other then value else machine.register other := by
  obtain ⟨changed⟩ := changed
  obtain ⟨other⟩ := other
  simp [register, setRegister, Vector.getElem_set, Fin.ext_iff]

/-- Changing a memory cell changes no other one. -/
theorem cell_setCell (machine : Machine) (changed other : Address) (word : Word) :
    (machine.setCell changed word).cell other =
      if changed = other then word else machine.cell other := by
  simp [cell, setCell, Vector.getElem_set, Fin.ext_iff]

@[simp] theorem cell_setRegister (machine : Machine) (changed : Register) (value : Int32)
    (address : Address) : (machine.setRegister changed value).cell address = machine.cell address :=
  rfl

@[simp] theorem register_setCell (machine : Machine) (changed : Address) (word : Word)
    (other : Register) : (machine.setCell changed word).register other = machine.register other :=
  rfl

/-! ### Access by any index -/

/-- The value of the register with the given index. -/
def readRegister (machine : Machine) (index : Nat) : Except AccessError Int32 :=
  match machine.registers[index]? with
  | some value => .ok value
  | none => .error (.invalidRegister index)

/-- Gives the register with the given index a new value. -/
def writeRegister (machine : Machine) (index : Nat) (value : Int32) : Outcome AccessError Unit :=
  if bound : index < 16 then
    .ok () { machine with registers := machine.registers.set index value }
  else .error (.invalidRegister index) machine

/-- The word at the given address. -/
def readMemory (machine : Machine) (address : Nat) : Except AccessError Word :=
  match machine.memory[address]? with
  | some word => .ok word
  | none => .error (.invalidAddress address)

/-- Puts a word into the memory cell at the given address. -/
def writeMemory (machine : Machine) (address : Nat) (word : Word) : Outcome AccessError Unit :=
  if bound : address < 4096 then
    .ok () { machine with memory := machine.memory.set address word }
  else .error (.invalidAddress address) machine

/-- Puts a program at address zero; the cells after the program, the registers and the program
counter stay as they are. -/
def load (machine : Machine) (words : List Word) : Outcome AccessError Unit :=
  if words.length ≤ 4096 then
    let program := words.toArray
    .ok () { machine with memory := machine.memory.mapIdx fun address word =>
      program[address]?.getD word }
  else .error (.programTooLarge words.length) machine

/-- A register is read by its index. -/
theorem readRegister_eq (machine : Machine) (index : Nat) : machine.readRegister index =
    if inside : index < 16 then .ok (machine.register ⟨⟨index, inside⟩⟩)
    else .error (.invalidRegister index) := by
  unfold readRegister
  by_cases inside : index < 16
  · rw [Vector.getElem?_eq_getElem inside, dif_pos inside]
    rfl
  · rw [Vector.getElem?_eq_none (Nat.le_of_not_lt inside), dif_neg inside]

/-- A memory cell is read by its address. -/
theorem readMemory_eq (machine : Machine) (address : Nat) : machine.readMemory address =
    if inside : address < 4096 then .ok (machine.cell ⟨address, inside⟩)
    else .error (.invalidAddress address) := by
  unfold readMemory
  by_cases inside : address < 4096
  · rw [Vector.getElem?_eq_getElem inside, dif_pos inside]
    rfl
  · rw [Vector.getElem?_eq_none (Nat.le_of_not_lt inside), dif_neg inside]

end Machine

end Asm16
