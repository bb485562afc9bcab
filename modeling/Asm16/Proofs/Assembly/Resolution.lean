/-
**What tokens resolve to, whatever labels there are.**

A table of labels knows no rules for names: it can bind names of registers and numerals as well.

* `Numeral.byPlaces` — the number that digits denote by their places; by
  `Numeral.decimalValue_eq_byPlaces` it is the one that numerals of any length are read as.
* `Operand.Resolves` — what comes of a token: the register that it names, else the address that it
  is bound to, else the number of a numeral, and otherwise a mistake.
* `Operand.resolve_eq_iff` — every token resolves to what comes of it.
* `Operand.resolve_and_expectValue_exact` — so does a token that has to be a value of a given width,
  if it is one; and a register is what its name resolves to.
-/

import Asm16.Proofs.Assembly.Tokens
import Mathlib.Data.Nat.Digits.Defs

namespace Asm16

/-! ### Numbers -/

namespace Numeral

/-- The number that digits denote by their places: the last one counts ones, and each other one ten
times as much as the one after it. -/
def byPlaces (digits : List Char) : Nat :=
  Nat.ofDigits 10 (digits.reverse.map fun c => c.toNat - '0'.toNat)

/-- Digits that are read from the first to the last denote the number that they denote by their
places, however many there are. -/
theorem decimalValue_eq_byPlaces (digits : List Char) : decimalValue digits = byPlaces digits := by
  induction digits using List.reverseRecOn with
  | nil => rfl
  | append_singleton digits last ih =>
    rw [decimalValue_concat, ih, byPlaces, byPlaces, List.reverse_concat, List.map_cons,
      Nat.ofDigits_cons, Nat.add_comm]
    rfl

end Numeral

/-! ### Operands -/

namespace Operand

/-- What comes of a token. A name of a register is that register even if it is bound, a bound name
is its address even if it is a numeral, and leading zeros do not matter in numerals. -/
inductive Resolves (labels : LabelTable) (token : String) : Except Mistake Operand → Prop
  | register {found : Register} (named : found.Named token) :
      Resolves labels token (.ok (.register found))
  | label {address : Address} (unlikeRegisters : ∀ register : Register, ¬ register.Named token)
      (bound : (token, address) ∈ labels.entries) :
      Resolves labels token (.ok (.value address.val))
  | numeral (unlikeRegisters : ∀ register : Register, ¬ register.Named token)
      (unbound : ∀ address, (token, address) ∉ labels.entries)
      (numeral : Numeral.IsNumeral token) (small : Numeral.byPlaces token.toList < 2 ^ 32) :
      Resolves labels token (.ok (.value (Numeral.byPlaces token.toList)))
  | overlong (unlikeRegisters : ∀ register : Register, ¬ register.Named token)
      (unbound : ∀ address, (token, address) ∉ labels.entries)
      (numeral : Numeral.IsNumeral token) (large : 2 ^ 32 ≤ Numeral.byPlaces token.toList) :
      Resolves labels token (.error (.operandOutOfRange token 32))
  | unresolved (unlikeRegisters : ∀ register : Register, ¬ register.Named token)
      (unbound : ∀ address, (token, address) ∉ labels.entries)
      (noNumeral : ¬ Numeral.IsNumeral token) :
      Resolves labels token (.error (.unresolvedOperand token))

variable {labels : LabelTable} {token : String}

/-- Something comes of every token. -/
theorem exists_resolves (labels : LabelTable) (token : String) :
    ∃ outcome, Resolves labels token outcome := by
  by_cases named : ∃ register : Register, register.Named token
  · obtain ⟨register, named⟩ := named
    exact ⟨_, .register named⟩
  have unlikeRegisters := not_exists.mp named
  by_cases bound : ∃ address, (token, address) ∈ labels.entries
  · obtain ⟨address, bound⟩ := bound
    exact ⟨_, .label unlikeRegisters bound⟩
  have unbound := not_exists.mp bound
  by_cases numeral : Numeral.IsNumeral token
  · rcases Nat.lt_or_ge (Numeral.byPlaces token.toList) (2 ^ 32) with small | large
    · exact ⟨_, .numeral unlikeRegisters unbound numeral small⟩
    · exact ⟨_, .overlong unlikeRegisters unbound numeral large⟩
  · exact ⟨_, .unresolved unlikeRegisters unbound numeral⟩

theorem resolve_of_resolves {outcome : Except Mistake Operand}
    (resolves : Resolves labels token outcome) : resolve labels token = outcome := by
  unfold resolve
  cases resolves with
  | register named => rw [Register.ofName?_eq_some_iff.mpr named]
  | label unlikeRegisters bound =>
    rw [Register.ofName?_eq_none_iff.mpr unlikeRegisters, LabelTable.get?_eq_some_iff.mpr bound]
  | numeral unlikeRegisters unbound numeral small =>
    rw [Register.ofName?_eq_none_iff.mpr unlikeRegisters,
      LabelTable.get?_eq_none_iff.mpr unbound]
    simp only [Numeral.isDecimal_iff.mpr numeral, if_true, Numeral.decimalValue_eq_byPlaces]
    exact if_pos small
  | overlong unlikeRegisters unbound numeral large =>
    rw [Register.ofName?_eq_none_iff.mpr unlikeRegisters,
      LabelTable.get?_eq_none_iff.mpr unbound]
    simp only [Numeral.isDecimal_iff.mpr numeral, if_true, Numeral.decimalValue_eq_byPlaces]
    exact if_neg (Nat.not_lt_of_le large)
  | unresolved unlikeRegisters unbound noNumeral =>
    rw [Register.ofName?_eq_none_iff.mpr unlikeRegisters,
      LabelTable.get?_eq_none_iff.mpr unbound]
    exact if_neg (mt Numeral.isDecimal_iff.mp noNumeral)

/-- **Every token resolves to what comes of it**, against any labels. -/
theorem resolve_eq_iff {outcome : Except Mistake Operand} :
    resolve labels token = outcome ↔ Resolves labels token outcome := by
  refine ⟨?_, resolve_of_resolves⟩
  rintro rfl
  obtain ⟨outcome, resolves⟩ := exists_resolves labels token
  rwa [resolve_of_resolves resolves]

theorem expectRegister_eq_ok_iff {found : Register} :
    expectRegister labels token = .ok found ↔ resolve labels token = .ok (register found) := by
  unfold expectRegister
  cases resolve labels token with
  | error mistake => simp
  | ok operand => cases operand <;> simp

theorem expectValue_eq_ok_iff {bits number : Nat} :
    expectValue labels bits token = .ok number ↔
      resolve labels token = .ok (value number) ∧ number ≤ (lowMask bits).toNat := by
  unfold expectValue
  cases resolve labels token with
  | error mistake => simp
  | ok operand =>
    cases operand with
    | register found => simp
    | value found =>
      by_cases fits : found ≤ (lowMask bits).toNat
      · simp only [fits, if_true, Except.ok.injEq, value.injEq]
        exact ⟨fun same => ⟨same, same ▸ fits⟩, fun same => same.1⟩
      · simp only [fits, if_false, reduceCtorEq, Except.ok.injEq, value.injEq, false_iff]
        rintro ⟨rfl, small⟩
        exact fits small

/-- A field of at most 16 bits takes the values that it has room for. -/
theorem expectValue_eq_ok_iff_resolves {bits number : Nat} (width : bits ≤ 16) :
    expectValue labels bits token = .ok number ↔
      Resolves labels token (.ok (.value number)) ∧ number < 2 ^ bits := by
  rw [expectValue_eq_ok_iff, resolve_eq_iff, toNat_lowMask width, Nat.one_shiftLeft,
    Nat.le_sub_one_iff_lt (Nat.two_pow_pos bits)]

/-- **Operands are resolved exactly**, against any labels: a token resolves to what comes of it, a
field of at most 16 bits takes the token if that is a value with room there, and the name of a
register is read as the register. -/
theorem resolve_and_expectValue_exact :
    (∀ (labels : LabelTable) (token : String),
      (∀ outcome, resolve labels token = outcome ↔ Resolves labels token outcome) ∧
        ∀ bits ≤ 16, ∀ number, expectValue labels bits token = .ok number ↔
          Resolves labels token (.ok (.value number)) ∧ number < 2 ^ bits) ∧
      ∀ found : Register, Register.ofName? found.name = some found :=
  ⟨fun _ _ => ⟨fun _ => resolve_eq_iff, fun _ width _ => expectValue_eq_ok_iff_resolves width⟩,
    fun _ => Register.ofName?_eq_some_iff.mpr (.inl rfl)⟩

/-- Labels that are named like a register, like no register for its leading zero, and like a
numeral. Another numeral of the same number stands for the number, and the largest one of 32 bits is
too large for any field. -/
theorem resolve_and_expectValue_exact_of_clashing_names :
    let labels : LabelTable := ⟨[("R3", 7), ("r03", 300), ("12", 4095)], by decide⟩
    Resolves labels "R3" (.ok (.register ⟨3⟩)) ∧ Resolves labels "r03" (.ok (.value 300)) ∧
      Resolves labels "12" (.ok (.value 4095)) ∧
      Resolves labels "00000000000000000012" (.ok (.value 12)) ∧
      Resolves labels "4294967296" (.error (.operandOutOfRange "4294967296" 32)) ∧
      (8 ≤ 16 ∧ expectValue labels 8 "00000000000000000012" = .ok 12 ∧ 12 < 2 ^ 8) ∧
      (12 ≤ 16 ∧ expectValue labels 12 "12" = .ok 4095 ∧ 4095 < 2 ^ 12) ∧
      (8 ≤ 16 ∧ ¬ (Resolves labels "4294967295" (.ok (.value 4294967295)) ∧ 4294967295 < 2 ^ 8)) ∧
      Register.ofName? "R15" = some ⟨15⟩ := by
  intro labels
  obtain ⟨resolved, read⟩ := resolve_and_expectValue_exact
  have byte : expectValue labels 8 "00000000000000000012" = .ok 12 := by decide +kernel
  have address : expectValue labels 12 "12" = .ok 4095 := by decide +kernel
  have refused : expectValue labels 8 "4294967295" ≠ .ok 4294967295 := by decide +kernel
  exact ⟨((resolved labels _).1 _).mp (by decide +kernel),
    ((resolved labels _).1 _).mp (by decide +kernel),
    (((resolved labels _).2 12 (by decide) _).mp address).1,
    (((resolved labels _).2 8 (by decide) _).mp byte).1,
    ((resolved labels _).1 _).mp (by decide +kernel), ⟨by decide, byte, by decide⟩,
    ⟨by decide, address, by decide⟩,
    ⟨by decide, mt ((resolved labels _).2 8 (by decide) _).mpr refused⟩, read ⟨15⟩⟩

end Operand

end Asm16
