/-
**Instructions as words.**

A word holds, from its highest bits down, four bits of operation and twelve bits of operands:

```
 15    12 11     8 7      4 3      0
+--------+--------+--------+--------+
| opcode | first  |   byte or address|   LOAD, STORE, JMPZ, JMPNZ
| opcode | first  | second | third  |   ADD, SUB, MUL, DIV
| opcode |         address          |   JMP
| opcode |         (unused)         |   HALT
+--------+--------+--------+--------+
```

* `Instr.encode` — the word of an instruction, its unused bits zero.
* `Instr.decode` — the instruction of a word, whatever its unused bits, or `UnknownOpcode`.
* `Instr.decode_encode` — decoding undoes encoding.
-/

import Asm16.Instr

namespace Asm16

/-- A word whose highest four bits are those of no operation. -/
structure UnknownOpcode where
  word : Word
deriving DecidableEq, Repr

namespace UnknownOpcode

/-- The highest four bits of the word. -/
def opcode (error : UnknownOpcode) : UInt8 :=
  UInt8.ofNat (error.word.toNat / 4096)

/-- The words in which an unknown operation is reported. -/
def message (error : UnknownOpcode) : String :=
  s!"unknown opcode {Numeral.binary 4 error.opcode.toNat} in word " ++
    s!"0x{Numeral.hexadecimal 4 error.word.toNat}"

end UnknownOpcode

namespace Instr

/-- The twelve bits of operands of an instruction, as a number. -/
def operandField : Instr → Nat
  | load register byte | store register byte | branch _ register byte =>
    register.index.val * 256 + byte.toNat
  | arithmetic _ destination left right =>
    destination.index.val * 256 + left.index.val * 16 + right.index.val
  | jump target => target.val
  | halt => 0

/-- The word of an instruction. -/
def encode (instr : Instr) : Word :=
  UInt16.ofNat (instr.opcode.bits * 4096 + instr.operandField)

/-- The instruction with the given operation and the operands found in a word. -/
def ofField (field : Nat) : Opcode → Instr
  | .load => load (.ofNibble (field / 256)) (UInt8.ofNat field)
  | .store => store (.ofNibble (field / 256)) (UInt8.ofNat field)
  | .arithmetic operation =>
    arithmetic operation (.ofNibble (field / 256)) (.ofNibble (field / 16)) (.ofNibble field)
  | .jump => jump (.ofLowBits field)
  | .branch condition => branch condition (.ofNibble (field / 256)) (UInt8.ofNat field)
  | .halt => halt

/-- The instruction of a word, unless its highest four bits are those of no operation. -/
def decode (word : Word) : Except UnknownOpcode Instr :=
  match Opcode.ofBits? (word.toNat / 4096) with
  | some opcode => .ok (ofField word.toNat opcode)
  | none => .error ⟨word⟩

/-! ### Decoding encoded instructions -/

/-- The operands take twelve bits. -/
theorem operandField_lt (instr : Instr) : instr.operandField < 4096 := by
  cases instr with
  | load register byte | store register byte | branch _ register byte =>
    have := register.index.isLt
    have := byte.toNat_lt
    simp only [operandField]
    omega
  | arithmetic _ destination left right =>
    have := destination.index.isLt
    have := left.index.isLt
    have := right.index.isLt
    simp only [operandField]
    omega
  | jump target => exact target.isLt
  | halt => decide

/-- The operation and the operands of an instruction do not overlap in its word. -/
theorem toNat_encode (instr : Instr) :
    instr.encode.toNat = instr.opcode.bits * 4096 + instr.operandField := by
  have bits := instr.opcode.bits_lt
  have field := instr.operandField_lt
  rw [encode, UInt16.toNat_ofNat']
  omega

/-- The operands of an instruction are found again below any higher bits. -/
theorem ofField_operandField (instr : Instr) (high : Nat) :
    ofField (high * 4096 + instr.operandField) instr.opcode = instr := by
  cases instr with
  | load register byte | store register byte | branch _ register byte =>
    have := register.index.isLt
    have := byte.toNat_lt
    simp only [operandField, opcode, ofField]
    congr 1
    · exact Register.ofNibble_eq (by omega)
    · apply UInt8.toNat_inj.mp
      rw [UInt8.toNat_ofNat']
      omega
  | arithmetic _ destination left right =>
    have := destination.index.isLt
    have := left.index.isLt
    have := right.index.isLt
    simp only [operandField, opcode, ofField]
    congr 1 <;> exact Register.ofNibble_eq (by omega)
  | jump target =>
    have := target.isLt
    simp only [operandField, opcode, ofField, Address.ofLowBits, jump.injEq, Fin.ext_iff]
    omega
  | halt => rfl

/-- The word of an instruction decodes to the instruction. -/
theorem decode_encode (instr : Instr) : decode instr.encode = .ok instr := by
  have field := instr.operandField_lt
  have high : instr.encode.toNat / 4096 = instr.opcode.bits := by
    rw [toNat_encode]
    omega
  rw [decode, high, Opcode.ofBits?_bits]
  simp only [toNat_encode, ofField_operandField]

end Instr

end Asm16
