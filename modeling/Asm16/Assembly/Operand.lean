/-
**Operands.**

* `Operand.resolve` — what a token stands for: a register, else the address of a label, else the
  number of a decimal numeral.
* `Operand.register`, `Operand.value` — the same where an instruction needs a register, or a value
  that fits a field of the given width.
-/

import Asm16.Assembly.Mistake
import Asm16.LabelTable
import Asm16.Register

namespace Asm16

/-- What a token stands for. -/
inductive Operand
  | register (register : Register)
  | value (number : Nat)
deriving DecidableEq, Repr

namespace Operand

/-- What a token stands for: a register, else the address of a label, else a number of at most 32
bits. -/
def resolve (labels : LabelTable) (token : String) : Except Mistake Operand :=
  match Register.ofName? token with
  | some found => .ok (register found)
  | none =>
    match labels.get? token with
    | some address => .ok (value address.val)
    | none =>
      if Numeral.isDecimal token.toList then
        let number := Numeral.decimalValue token.toList
        if number < 4294967296 then .ok (value number)
        else .error (.operandOutOfRange token 32)
      else .error (.unresolvedOperand token)

/-- The register a token stands for. -/
def expectRegister (labels : LabelTable) (token : String) : Except Mistake Register :=
  match resolve labels token with
  | .error mistake => .error mistake
  | .ok (register found) => .ok found
  | .ok (value _) => .error (.operandKindMismatch .register token)

/-- The value a token stands for, if it fits in `bits` bits. -/
def expectValue (labels : LabelTable) (bits : Nat) (token : String) : Except Mistake Nat :=
  match resolve labels token with
  | .error mistake => .error mistake
  | .ok (register _) => .error (.operandKindMismatch .value token)
  | .ok (value number) =>
    if number ≤ (lowMask bits).toNat then .ok number
    else .error (.operandOutOfRange token bits)

end Operand

end Asm16
