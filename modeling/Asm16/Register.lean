/-
**Registers.**

* `Register` — one of the sixteen general purpose registers.
* `Register.name` — its name, `R0` to `R15`.
* `Register.ofName?` — the register a name stands for, with `R` in either case and no leading zero.
-/

import Asm16.Numeral

namespace Asm16

/-- One of the sixteen general purpose registers. -/
structure Register where
  index : Fin 16
deriving DecidableEq, Repr, Inhabited

namespace Register

/-- The register with the given index, if there is one. -/
def ofIndex? (index : Nat) : Option Register :=
  if bound : index < 16 then some ⟨⟨index, bound⟩⟩ else none

/-- The register named by the lowest four bits of a number. -/
def ofNibble (number : Nat) : Register :=
  ⟨⟨number % 16, Nat.mod_lt _ (by decide)⟩⟩

/-- The register of a number is the one whose index is the lowest four bits. -/
theorem ofNibble_eq {number : Nat} {register : Register}
    (nibble : number % 16 = register.index.val) : ofNibble number = register := by
  obtain ⟨index⟩ := register
  simp only [ofNibble, Register.mk.injEq, Fin.ext_iff]
  exact nibble

/-- The name of a register: `R` and its index. -/
def name (register : Register) : String :=
  "R" ++ toString register.index.val

/-- A canonical numeral has no leading zero, so that zero itself is a single digit. -/
def isCanonical (digits : List Char) : Bool :=
  Numeral.isDecimal digits && (digits.length == 1 || digits.head? != some '0')

/-- The register a name stands for: `R` or `r`, then the canonical numeral of the index. -/
def ofName? (name : String) : Option Register :=
  match name.toList with
  | [] => none
  | letter :: digits =>
    if (letter == 'R' || letter == 'r') && isCanonical digits then
      ofIndex? (Numeral.decimalValue digits)
    else none

end Register

end Asm16
