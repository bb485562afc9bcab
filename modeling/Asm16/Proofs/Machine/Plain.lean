/-
**Machines of plain numbers.**

A `Machine` cannot leave its bounds: its program counter is an address, and an instruction names
registers. A plain machine keeps words and bytes instead, finds every register and every memory
cell by its index, and has to be right about its indexes at run time.

* `PlainMachine`, `PlainInstr` — machines and instructions of plain numbers.
* `PlainMachine.Action` — what is done on such a machine: it gives an answer or breaks off, and in
  either case it leaves a machine. `Trap` lists the operations without a result.
* `PlainMachine.execute`, `PlainMachine.executeNext` — an instruction, given or fetched.
* `PlainMachine.atomic_executeNext` — an instruction that breaks off leaves the machine as it was,
  whatever numbers it has for registers and addresses.
* `PlainInstr.decode_eq` — shifting and masking find the operands of an instruction.
* `Machine.execute_plain` — an instruction does to the plain numbers of a machine what it does to
  the machine.
-/

import Asm16.Proofs.Engine.Transition
import Mathlib.Algebra.Group.Nat.Defs

namespace Asm16

/-- An operation of the implementation without a result: an address outside memory for the program
counter, a word or a step counter that would need more bits, a quotient by zero. -/
inductive Trap
  | programCounter
  | increment
  | quotient
  | stepCounter
deriving DecidableEq, Repr

/-- Why an instruction breaks off: it is refused, or an operation has no result. -/
inductive Break
  | fault (fault : Fault)
  | trap (trap : Trap)
deriving DecidableEq, Repr

/-! ### Machines -/

/-- Memory, a program counter of 16 bits and registers. -/
structure PlainMachine where
  memory : Vector Word 4096
  pc : Word
  registers : Vector Int32 16
deriving DecidableEq

/-- What an instruction changed, with the number of the register. -/
inductive PlainEffect
  | register (register : UInt8) (before after : Int32)
  | memory (address before after : Word)
  | jump (target : Word)
  | notTaken
  | halt
deriving DecidableEq, Repr

namespace PlainMachine

/-- What is done on a machine: it gives an answer or breaks off, and in either case it leaves a
machine. -/
abbrev Action (α : Type) : Type := EStateM Break PlainMachine α

/-- The value of the register with the given index. -/
def readRegister (index : Nat) : Action Int32 := fun machine =>
  match machine.registers[index]? with
  | some value => .ok value machine
  | none => .error (.fault (.access (.invalidRegister index))) machine

/-- Gives the register with the given index a new value. -/
def writeRegister (index : Nat) (value : Int32) : Action Unit := fun machine =>
  if bound : index < 16 then
    .ok () { machine with registers := machine.registers.set index value }
  else .error (.fault (.access (.invalidRegister index))) machine

/-- The word at the given address. -/
def readMemory (address : Nat) : Action Word := fun machine =>
  match machine.memory[address]? with
  | some word => .ok word machine
  | none => .error (.fault (.access (.invalidAddress address))) machine

/-- Puts a word at the given address. -/
def writeMemory (address : Nat) (word : Word) : Action Unit := fun machine =>
  if bound : address < 4096 then
    .ok () { machine with memory := machine.memory.set address word }
  else .error (.fault (.access (.invalidAddress address))) machine

/-- The machine at another address, which has to be in memory. -/
def setPc (machine : PlainMachine) (pc : Word) : Except Trap PlainMachine :=
  if pc.toNat < 4096 then .ok { machine with pc } else .error .programCounter

/-- Gives a register a new value, and tells the one before. -/
def assign (register : UInt8) (value : Int32) : Action PlainEffect := do
  let before ← readRegister register.toNat
  writeRegister register.toNat value
  return .register register before value

/-- Puts a word into a memory cell, and tells the one before. -/
def put (address : UInt8) (word : Word) : Action PlainEffect := do
  let before ← readMemory address.toNat
  writeMemory address.toNat word
  return .memory address.toUInt16 before word

end PlainMachine

/-! ### Instructions -/

/-- An instruction whose registers are numbers and whose jumps go to words. -/
inductive PlainInstr
  | load (destination : UInt8) (value : UInt8)
  | store (source : UInt8) (address : UInt8)
  | arithmetic (operation : Arithmetic) (destination left right : UInt8)
  | jump (target : Word)
  | branch (condition : Condition) (tested : UInt8) (target : UInt8)
  | halt
deriving DecidableEq, Repr

namespace PlainInstr

/-- The lowest four bits of a word. -/
def nibble (word : Word) : UInt8 :=
  (word &&& 0xF).toUInt8

/-- The instruction with the given operation and the operands that are cut out of a word. -/
def ofWord (word : Word) : Opcode → PlainInstr
  | .load => load (nibble (word >>> 8)) (word &&& lowMask 8).toUInt8
  | .store => store (nibble (word >>> 8)) (word &&& lowMask 8).toUInt8
  | .arithmetic operation =>
    arithmetic operation (nibble (word >>> 8)) (nibble (word >>> 4)) (nibble word)
  | .jump => jump (word &&& lowMask 12)
  | .branch condition => branch condition (nibble (word >>> 8)) (word &&& lowMask 8).toUInt8
  | .halt => halt

/-- The instruction of a word, unless its highest four bits are those of no operation. -/
def decode (word : Word) : Except UnknownOpcode PlainInstr :=
  match Opcode.ofBits? (word >>> 12).toUInt8.toNat with
  | some opcode => .ok (ofWord word opcode)
  | none => .error ⟨word⟩

end PlainInstr

namespace PlainMachine

/-- The quotient of two 32-bit integers. The smallest integer divided by -1 wraps to itself. -/
def quotient (left right : Int32) : Action Int32 :=
  if right = 0 then throw (.trap .quotient) else return left / right

/-- The result of an operation for the instruction at an address. -/
def apply (pc : Word) (operation : Arithmetic) (left right : Int32) : Action Int32 :=
  match operation with
  | .add => return left + right
  | .sub => return left - right
  | .mul => return left * right
  | .div => if right = 0 then throw (.fault (.divisionByZero pc)) else quotient left right

/-- Executes the instruction of an address. A jump only tells its target. -/
def execute (pc : Word) : PlainInstr → Action PlainEffect
  | .load destination value => assign destination (Int32.ofNat value.toNat)
  | .store source address => do
    let value ← readRegister source.toNat
    put address value.toUInt32.toUInt16
  | .arithmetic operation destination left right => do
    let first ← readRegister left.toNat
    let second ← readRegister right.toNat
    let value ← apply pc operation first second
    assign destination value
  | .jump target => return .jump target
  | .branch condition tested target => do
    let value ← readRegister tested.toNat
    return if condition.holds value then .jump target.toUInt16 else .notTaken
  | .halt => return .halt

/-- Fetches, decodes and executes the instruction at an address. -/
def executeNext (pc : Word) : Action (Word × PlainInstr × PlainEffect) := do
  let word ← readMemory pc.toNat
  match PlainInstr.decode word with
  | .error error => throw (.fault (.unknownOpcode error.opcode pc))
  | .ok instr =>
    let effect ← execute pc instr
    return (word, instr, effect)

/-! ### Instructions that break off -/

section Actions

variable {α β : Type} {action : Action α} {rest : α → Action β} {machine next : PlainMachine}

/-- An action that breaks off leaves the machine as it was. -/
def Atomic (action : Action α) : Prop :=
  ∀ ⦃machine next : PlainMachine⦄ ⦃broken : Break⦄,
    action machine = .error broken next → next = machine

/-- An action leaves the machine as it was, whether it breaks off or not. -/
structure Reads (action : Action α) : Prop where
  atomic : Atomic action
  keeps : ∀ ⦃machine next : PlainMachine⦄ ⦃answer : α⦄,
    action machine = .ok answer next → next = machine

theorem bind_of_ok {answer : α} (done : action machine = .ok answer next) :
    (action >>= rest) machine = rest answer next := by
  show EStateM.bind action rest machine = _
  rw [EStateM.bind, done]

theorem bind_of_error {broken : Break} (failed : action machine = .error broken next) :
    (action >>= rest) machine = .error broken next := by
  show EStateM.bind action rest machine = _
  rw [EStateM.bind, failed]

/-- What is done after reading only has to be atomic itself. -/
theorem Reads.bind (reads : Reads action) (atomic : ∀ answer, Atomic (rest answer)) :
    Atomic (action >>= rest) := by
  intro machine next broken failed
  cases done : action machine with
  | ok answer middle =>
    rw [bind_of_ok done] at failed
    obtain rfl := reads.keeps done
    exact atomic answer failed
  | error other middle =>
    rw [bind_of_error done] at failed
    cases failed
    exact reads.atomic done

/-- After a change an answer can still be given, as this does not break off. -/
theorem Atomic.bind_pure (atomic : Atomic action) (answered : α → β) :
    Atomic (action >>= fun answer => pure (answered answer)) := by
  intro machine next broken failed
  cases done : action machine with
  | ok answer middle =>
    rw [bind_of_ok done] at failed
    cases failed
  | error other middle =>
    rw [bind_of_error done] at failed
    cases failed
    exact atomic done

theorem reads_pure (answer : α) : Reads (pure answer) where
  atomic := nofun
  keeps := by rintro machine next _ ⟨⟩; rfl

theorem reads_throw (broken : Break) : Reads (throw broken : Action α) where
  atomic := by rintro machine next _ ⟨⟩; rfl
  keeps := nofun

end Actions

theorem reads_readRegister (index : Nat) : Reads (readRegister index) where
  atomic := by
    intro machine next broken failed
    unfold readRegister at failed
    split at failed <;> cases failed
    rfl
  keeps := by
    intro machine next answer given
    unfold readRegister at given
    split at given <;> cases given
    rfl

theorem reads_readMemory (address : Nat) : Reads (readMemory address) where
  atomic := by
    intro machine next broken failed
    unfold readMemory at failed
    split at failed <;> cases failed
    rfl
  keeps := by
    intro machine next answer given
    unfold readMemory at given
    split at given <;> cases given
    rfl

theorem reads_apply (pc : Word) (operation : Arithmetic) (left right : Int32) :
    Reads (apply pc operation left right) := by
  cases operation with
  | div =>
    unfold apply quotient
    dsimp only
    split
    · exact reads_throw _
    · exact reads_pure _
  | _ => exact reads_pure _

/-- A register that does not exist is not written. -/
theorem atomic_writeRegister (index : Nat) (value : Int32) :
    Atomic (writeRegister index value) := by
  intro machine next broken failed
  unfold writeRegister at failed
  split at failed <;> cases failed
  rfl

/-- A memory cell that does not exist is not written. -/
theorem atomic_writeMemory (address : Nat) (word : Word) : Atomic (writeMemory address word) := by
  intro machine next broken failed
  unfold writeMemory at failed
  split at failed <;> cases failed
  rfl

theorem atomic_assign (register : UInt8) (value : Int32) : Atomic (assign register value) :=
  (reads_readRegister _).bind fun _ => (atomic_writeRegister _ _).bind_pure _

theorem atomic_put (address : UInt8) (word : Word) : Atomic (put address word) :=
  (reads_readMemory _).bind fun _ => (atomic_writeMemory _ _).bind_pure _

/-- An instruction writes last, if at all. -/
theorem atomic_execute (pc : Word) (instr : PlainInstr) : Atomic (execute pc instr) := by
  cases instr with
  | load destination value => exact atomic_assign _ _
  | store source address => exact (reads_readRegister _).bind fun _ => atomic_put _ _
  | arithmetic operation destination left right =>
    exact (reads_readRegister _).bind fun _ => (reads_readRegister _).bind fun _ =>
      (reads_apply _ _ _ _).bind fun _ => atomic_assign _ _
  | jump target => exact (reads_pure _).atomic
  | branch condition tested target =>
    exact (reads_readRegister _).bind fun _ => (reads_pure _).atomic
  | halt => exact (reads_pure _).atomic

/-- **An instruction that breaks off leaves the machine as it was.** -/
theorem atomic_executeNext (pc : Word) : Atomic (executeNext pc) := by
  refine (reads_readMemory _).bind fun word => ?_
  split
  · exact (reads_throw _).atomic
  · exact (atomic_execute _ _).bind_pure _

end PlainMachine

/-! ### Machines and instructions as plain numbers -/

/-- A machine with its program counter as a word. -/
def Machine.plain (machine : Machine) : PlainMachine where
  memory := machine.memory
  pc := machine.pc.toWord
  registers := machine.registers

/-- A machine whose program counter is in memory consists of the plain numbers of a machine. -/
theorem PlainMachine.exists_eq_plain {machine : PlainMachine} (inside : machine.pc.toNat < 4096) :
    ∃ checked : Machine, machine = checked.plain := by
  obtain ⟨memory, pc, registers⟩ := machine
  have same : Address.toWord ⟨pc.toNat, inside⟩ = pc := UInt16.ofNat_toNat
  refine ⟨⟨memory, ⟨pc.toNat, inside⟩, registers⟩, ?_⟩
  show PlainMachine.mk memory pc registers =
    PlainMachine.mk memory (Address.toWord ⟨pc.toNat, inside⟩) registers
  rw [same]

/-- An effect with its register as a number. -/
def Effect.plain : Effect → PlainEffect
  | register changed before after => .register (UInt8.ofNat changed.index.val) before after
  | memory address before after => .memory address before after
  | jump target => .jump target
  | notTaken => .notTaken
  | halt => .halt

/-- An instruction with its registers as numbers. -/
def Instr.plain : Instr → PlainInstr
  | load destination value => .load (UInt8.ofNat destination.index.val) value
  | store source address => .store (UInt8.ofNat source.index.val) address
  | arithmetic operation destination left right =>
    .arithmetic operation (UInt8.ofNat destination.index.val) (UInt8.ofNat left.index.val)
      (UInt8.ofNat right.index.val)
  | jump target => .jump target.toWord
  | branch condition tested target => .branch condition (UInt8.ofNat tested.index.val) target
  | halt => .halt

theorem Register.toNat_ofNat_index (register : Register) :
    (UInt8.ofNat register.index.val).toNat = register.index.val := by
  have := register.index.isLt
  rw [UInt8.toNat_ofNat']
  omega

theorem Address.toWord_ofByte (byte : UInt8) : (ofByte byte).toWord = byte.toUInt16 := by
  apply UInt16.toNat_inj.mp
  rw [toNat_toWord, UInt8.toNat_toUInt16]
  rfl

namespace PlainInstr

/-- A mask of the lowest bits leaves the remainder of a division. -/
theorem toNat_and_lowMask (word : Word) {bits : Nat} (bound : bits < 16) :
    (word &&& lowMask bits).toNat = word.toNat % 2 ^ bits := by
  rw [UInt16.toNat_and, toNat_lowMask (Nat.le_of_lt bound), Nat.one_shiftLeft,
    Nat.and_two_pow_sub_one_eq_mod]

theorem nibble_eq (word : Word) :
    nibble word = UInt8.ofNat (Register.ofNibble word.toNat).index.val := by
  apply UInt8.toNat_inj.mp
  rw [Register.toNat_ofNat_index, nibble, UInt16.toNat_toUInt8]
  show (word &&& lowMask 4).toNat % 2 ^ 8 = word.toNat % 16
  rw [toNat_and_lowMask word (by decide)]
  omega

theorem toNat_shiftRight (word : Word) (bits : Nat) (bound : bits < 16) :
    (word >>> UInt16.ofNat bits).toNat = word.toNat / 2 ^ bits := by
  rw [UInt16.toNat_shiftRight, UInt16.toNat_ofNat', Nat.shiftRight_eq_div_pow]
  congr 2
  omega

/-- The second register of an instruction. -/
theorem nibble_shiftRight (word : Word) (bits : Nat) (bound : bits < 16) :
    nibble (word >>> UInt16.ofNat bits) =
      UInt8.ofNat (Register.ofNibble (word.toNat / 2 ^ bits)).index.val := by
  rw [nibble_eq, toNat_shiftRight word bits bound]

theorem byte_eq (word : Word) : (word &&& lowMask 8).toUInt8 = UInt8.ofNat word.toNat := by
  apply UInt8.toNat_inj.mp
  rw [UInt16.toNat_toUInt8, toNat_and_lowMask word (by decide), UInt8.toNat_ofNat']
  omega

theorem address_eq (word : Word) :
    word &&& lowMask 12 = (Address.ofLowBits word.toNat).toWord := by
  apply UInt16.toNat_inj.mp
  rw [toNat_and_lowMask word (by decide), Address.toNat_toWord]
  rfl

/-- Shifting and masking find the operands of an instruction. -/
theorem ofWord_eq (word : Word) (opcode : Opcode) :
    ofWord word opcode = (Instr.ofField word.toNat opcode).plain := by
  have first : nibble (word >>> 8) = UInt8.ofNat (Register.ofNibble (word.toNat / 256)).index.val :=
    nibble_shiftRight word 8 (by decide)
  have second : nibble (word >>> 4) = UInt8.ofNat (Register.ofNibble (word.toNat / 16)).index.val :=
    nibble_shiftRight word 4 (by decide)
  cases opcode with
  | load | store | branch => simp only [ofWord, Instr.ofField, Instr.plain, first, byte_eq]
  | arithmetic =>
    simp only [ofWord, Instr.ofField, Instr.plain, first, second, nibble_eq]
  | jump => simp only [ofWord, Instr.ofField, Instr.plain, address_eq]
  | halt => rfl

/-- A word is decoded to the numbers of its instruction. -/
theorem decode_eq (word : Word) : decode word = (Instr.decode word).map Instr.plain := by
  have bound := word.toNat_lt
  have shifted : (word >>> 12).toNat = word.toNat / 4096 := toNat_shiftRight word 12 (by decide)
  have high : (word >>> 12).toUInt8.toNat = word.toNat / 4096 := by
    rw [UInt16.toNat_toUInt8, shifted]
    omega
  rw [decode, Instr.decode, high]
  cases Opcode.ofBits? (word.toNat / 4096) with
  | none => rfl
  | some opcode => exact congrArg Except.ok (ofWord_eq word opcode)

end PlainInstr

/-! ### Instructions on plain numbers -/

namespace Machine

variable (machine : Machine)

theorem readRegister_plain (register : Register) :
    PlainMachine.readRegister (UInt8.ofNat register.index.val).toNat machine.plain =
      .ok (machine.register register) machine.plain := by
  have found : machine.plain.registers[register.index.val]? = some (machine.register register) :=
    Vector.getElem?_eq_getElem register.index.isLt
  rw [register.toNat_ofNat_index, PlainMachine.readRegister, found]

theorem writeRegister_plain (register : Register) (value : Int32) :
    PlainMachine.writeRegister (UInt8.ofNat register.index.val).toNat value machine.plain =
      .ok () (machine.setRegister register value).plain := by
  rw [register.toNat_ofNat_index, PlainMachine.writeRegister, dif_pos register.index.isLt]
  rfl

theorem readMemory_plain (address : Address) :
    PlainMachine.readMemory address.val machine.plain =
      .ok (machine.cell address) machine.plain := by
  have found : machine.plain.memory[address.val]? = some (machine.cell address) :=
    Vector.getElem?_eq_getElem address.isLt
  rw [PlainMachine.readMemory, found]

theorem writeMemory_plain (address : Address) (word : Word) :
    PlainMachine.writeMemory address.val word machine.plain =
      .ok () (machine.setCell address word).plain := by
  rw [PlainMachine.writeMemory, dif_pos address.isLt]
  rfl

/-- An address in memory is accepted as program counter. -/
theorem setPc_plain (address : Address) :
    machine.plain.setPc address.toWord = .ok { machine with pc := address }.plain := by
  rw [PlainMachine.setPc, address.toNat_toWord, if_pos address.isLt]
  rfl

theorem assign_plain (register : Register) (value : Int32) :
    PlainMachine.assign (UInt8.ofNat register.index.val) value machine.plain =
      .ok (Effect.register register (machine.register register) value).plain
        (machine.setRegister register value).plain := by
  rw [PlainMachine.assign, PlainMachine.bind_of_ok (machine.readRegister_plain register),
    PlainMachine.bind_of_ok (machine.writeRegister_plain register value)]
  rfl

theorem put_plain (byte : UInt8) (word : Word) :
    PlainMachine.put byte word machine.plain =
      .ok (Effect.memory (Address.ofByte byte).toWord (machine.cell (.ofByte byte)) word).plain
        (machine.setCell (.ofByte byte) word).plain := by
  rw [PlainMachine.put, show byte.toNat = (Address.ofByte byte).val from rfl,
    PlainMachine.bind_of_ok (machine.readMemory_plain (.ofByte byte)),
    PlainMachine.bind_of_ok (machine.writeMemory_plain (.ofByte byte) word), Address.toWord_ofByte]
  rfl

theorem apply_plain (pc : Word) (operation : Arithmetic) (left right : Int32) :
    PlainMachine.apply pc operation left right machine.plain =
      match operation.apply? left right with
      | some value => .ok value machine.plain
      | none => .error (.fault (.divisionByZero pc)) machine.plain := by
  cases operation with
  | div =>
    unfold PlainMachine.apply Arithmetic.apply? PlainMachine.quotient
    by_cases zero : right = 0
    · simp only [if_pos zero]
      rfl
    · simp only [if_neg zero]
      rfl
  | _ => rfl

/-- An instruction on plain numbers leaves the program counter where it is, jumps included. -/
theorem execute_plain (instr : Instr) :
    PlainMachine.execute machine.pc.toWord instr.plain machine.plain =
      match machine.execute instr with
      | .ok effect next => .ok effect.plain { next with pc := machine.pc }.plain
      | .error fault next => .error (.fault fault) next.plain := by
  cases instr with
  | load destination value => exact machine.assign_plain destination _
  | store source address =>
    refine (PlainMachine.bind_of_ok (machine.readRegister_plain source)).trans ?_
    exact machine.put_plain address _
  | arithmetic operation destination left right =>
    refine (PlainMachine.bind_of_ok (machine.readRegister_plain left)).trans ?_
    refine (PlainMachine.bind_of_ok (machine.readRegister_plain right)).trans ?_
    have applied := machine.apply_plain machine.pc.toWord operation (machine.register left)
      (machine.register right)
    rw [execute]
    cases result : operation.apply? (machine.register left) (machine.register right) with
    | none =>
      rw [result] at applied
      exact PlainMachine.bind_of_error applied
    | some value =>
      rw [result] at applied
      exact (PlainMachine.bind_of_ok applied).trans (machine.assign_plain destination value)
  | jump target => rfl
  | branch condition tested target =>
    refine (PlainMachine.bind_of_ok (machine.readRegister_plain tested)).trans ?_
    rw [execute_branch]
    by_cases holds : condition.holds (machine.register tested) = true
    · rw [if_pos holds, if_pos holds, ← Address.toWord_ofByte]
      rfl
    · rw [if_neg holds, if_neg holds]
      rfl
  | halt => rfl

/-- The instruction at the program counter is found in memory, decoded and executed. -/
theorem executeNext_plain :
    PlainMachine.executeNext machine.pc.toWord machine.plain =
      match Instr.decode (machine.cell machine.pc) with
      | .error error =>
        .error (.fault (.unknownOpcode error.opcode machine.pc.toWord)) machine.plain
      | .ok instr =>
        match machine.execute instr with
        | .ok effect next => .ok (machine.cell machine.pc, instr.plain, effect.plain)
            { next with pc := machine.pc }.plain
        | .error fault next => .error (.fault fault) next.plain := by
  have read := machine.readMemory_plain machine.pc
  rw [← machine.pc.toNat_toWord] at read
  refine (PlainMachine.bind_of_ok read).trans ?_
  rw [PlainInstr.decode_eq]
  cases Instr.decode (machine.cell machine.pc) with
  | error error => rfl
  | ok instr =>
    have executed := machine.execute_plain instr
    show (PlainMachine.execute machine.pc.toWord instr.plain >>= fun effect => _) machine.plain =
      match machine.execute instr with
      | .ok effect next => _
      | .error fault next => _
    cases outcome : machine.execute instr with
    | ok effect next =>
      rw [outcome] at executed
      exact PlainMachine.bind_of_ok executed
    | error fault next =>
      rw [outcome] at executed
      exact PlainMachine.bind_of_error executed

end Machine

end Asm16
