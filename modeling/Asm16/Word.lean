/-
**Words and addresses.**

* `Word` — a memory cell or an encoded instruction, 16 bits.
* `Address` — the address of a memory cell, 12 bits, so that every address is in memory.
* `Address.ofNat?`, `ofLowBits`, `ofByte`, `toWord` — addresses as numbers, bytes and words.
* `lowMask` — the word whose lowest bits are set, the largest value of a field of that many bits.
-/

namespace Asm16

/-- A memory cell or an encoded instruction. -/
abbrev Word := UInt16

/-- The address of one of the 4096 memory cells. -/
abbrev Address := Fin 4096

namespace Address

/-- The address that a number is, if it is in memory. -/
def ofNat? (number : Nat) : Option Address :=
  if bound : number < 4096 then some ⟨number, bound⟩ else none

/-- The address in the lowest twelve bits of a number. -/
def ofLowBits (number : Nat) : Address :=
  ⟨number % 4096, Nat.mod_lt _ (by decide)⟩

/-- The address in a byte, which reaches the first 256 cells. -/
def ofByte (byte : UInt8) : Address :=
  ⟨byte.toNat, Nat.lt_of_lt_of_le byte.toNat_lt (by decide)⟩

/-- An address as a word. -/
def toWord (address : Address) : Word :=
  UInt16.ofNat address.val

@[simp] theorem toNat_toWord (address : Address) : address.toWord.toNat = address.val := by
  have := address.isLt
  rw [toWord, UInt16.toNat_ofNat']
  omega

end Address

/-- The word whose lowest `bits` bits are set, every bit from 16 on. -/
def lowMask (bits : Nat) : Word :=
  UInt16.ofNat (1 <<< bits - 1)

/-- A field of at most 16 bits holds the numbers below a power of two. -/
theorem toNat_lowMask {bits : Nat} (bound : bits ≤ 16) :
    (lowMask bits).toNat = 1 <<< bits - 1 := by
  have small : 1 <<< bits ≤ 65536 := by
    rw [Nat.one_shiftLeft]
    exact Nat.pow_le_pow_right (by decide) bound
  rw [lowMask, UInt16.toNat_ofNat']
  exact Nat.mod_eq_of_lt (by omega)

end Asm16
