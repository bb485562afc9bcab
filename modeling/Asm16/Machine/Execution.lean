/-
**The meaning of an instruction.**

* `Arithmetic.apply?` — the wrapping arithmetic of 32-bit integers; a zero divisor has no quotient.
* `Condition.holds` — what a conditional jump asks of a register.
* `Machine.execute` — the effect of an instruction and the machine after it, or why the instruction
  is refused and the machine that it leaves. Jumps set the program counter, every other instruction
  leaves it where it is.
-/

import Asm16.Machine.Event

namespace Asm16

/-- The result of an operation on 32-bit integers, which wraps; division truncates toward zero and
has no result for a zero divisor. -/
def Arithmetic.apply? (operation : Arithmetic) (left right : Int32) : Option Int32 :=
  match operation with
  | add => some (left + right)
  | sub => some (left - right)
  | mul => some (left * right)
  | div => if right = 0 then none else some (left / right)

/-- Whether the value of a register fulfils a condition. -/
def Condition.holds (condition : Condition) (value : Int32) : Bool :=
  match condition with
  | zero => value == 0
  | nonzero => value != 0

namespace Machine

/-- Gives a register a new value. -/
def assign (machine : Machine) (register : Register) (value : Int32) : Outcome Fault Effect :=
  .ok (.register register (machine.register register) value) (machine.setRegister register value)

/-- Puts a word into a memory cell. -/
def put (machine : Machine) (address : Address) (word : Word) : Outcome Fault Effect :=
  .ok (.memory address.toWord (machine.cell address) word) (machine.setCell address word)

/-- Continues at an address. -/
def goto (machine : Machine) (target : Address) : Outcome Fault Effect :=
  .ok (.jump target.toWord) { machine with pc := target }

/-- The effect of an instruction and the machine after it. A register is stored as its lowest 16
bits. -/
def execute (machine : Machine) : Instr → Outcome Fault Effect
  | .load destination value => machine.assign destination (Int32.ofNat value.toNat)
  | .store source address =>
    machine.put (.ofByte address) (machine.register source).toUInt32.toUInt16
  | .arithmetic operation destination left right =>
    match operation.apply? (machine.register left) (machine.register right) with
    | some value => machine.assign destination value
    | none => .error (.divisionByZero machine.pc.toWord) machine
  | .jump target => machine.goto target
  | .branch condition tested target =>
    if condition.holds (machine.register tested) then machine.goto (.ofByte target)
    else .ok .notTaken machine
  | .halt => .ok .halt machine

/-- The machine at the next address, unless the program counter is at the last one. -/
def advance? (machine : Machine) : Option Machine :=
  (Address.ofNat? (machine.pc.val + 1)).map fun pc => { machine with pc }

end Machine

end Asm16
