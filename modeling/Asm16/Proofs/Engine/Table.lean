/-
**A step obeys the table of instructions.**

The table says over exact integers what an instruction does, and not by the functions that execute
it:

* `WrapsTo`, `TruncatesTo` — how a sum, a difference or a product of any size becomes a 32-bit
  integer, and what a quotient is.
* `Arithmetic.Computes` — the results of arithmetic, which `Arithmetic.computes_of_apply?` finds.
* `Instr.Means` — **the table**: what an instruction does to registers and memory, that it does
  nothing else to them, and how the run goes on.
* `Engine.Performs` — a step carries out an instruction as the table says, and counts it.
* `Engine.step_performs` — every step that fetches an instruction does so, whichever registers and
  cells it names; only a division by zero faults instead.
-/

import Asm16.Proofs.Engine.Transition
import Mathlib.Data.Int.ModEq
import Mathlib.Data.Set.Insert

namespace Asm16

/-! ### Exact integers -/

/-- The only 32-bit integer that is congruent to a number modulo `2 ^ 32`. -/
def WrapsTo (number : Int) (value : Int32) : Prop :=
  ∀ other : Int32, other.toInt ≡ number [ZMOD 2 ^ 32] ↔ other = value

/-- The quotient truncated toward zero: what remains of the dividend is smaller than the divisor in
magnitude, and it is zero or has the sign of the dividend. -/
def TruncatesTo (dividend divisor quotient : Int) : Prop :=
  ∃ remainder, dividend = quotient * divisor + remainder ∧ |remainder| < |divisor| ∧
    (remainder = 0 ∨ remainder.sign = dividend.sign)

/-- The result of an operation on two registers. A zero divisor has none, and the smallest integer
divided by -1 is the smallest integer again. -/
def Arithmetic.Computes (left right value : Int32) : Arithmetic → Prop
  | add => WrapsTo (left.toInt + right.toInt) value
  | sub => WrapsTo (left.toInt - right.toInt) value
  | mul => WrapsTo (left.toInt * right.toInt) value
  | div => right.toInt ≠ 0 ∧
      if left.toInt = -2 ^ 31 ∧ right.toInt = -1 then value.toInt = -2 ^ 31
      else TruncatesTo left.toInt right.toInt value.toInt

/-- What a conditional jump asks of the register it tests. -/
def Condition.Asks (number : Int) : Condition → Prop
  | zero => number = 0
  | nonzero => number ≠ 0

theorem wrapsTo_of_toInt_eq {number : Int} {value : Int32}
    (wrapped : value.toInt = number.bmod (2 ^ 32)) : WrapsTo number value := by
  intro other
  rw [← Int32.toInt_inj, wrapped]
  constructor
  · intro congruent
    calc other.toInt = other.toInt.bmod (2 ^ 32) := (Int32.toInt_bmod other).symm
      _ = (other.toInt % ↑(2 ^ 32 : Nat)).bmod (2 ^ 32) := (Int.emod_bmod _ _).symm
      _ = (number % ↑(2 ^ 32 : Nat)).bmod (2 ^ 32) := congrArg (Int.bmod · (2 ^ 32)) congruent
      _ = number.bmod (2 ^ 32) := Int.emod_bmod _ _
  · intro same
    rw [same]
    exact Int.bmod_emod

theorem truncatesTo_tdiv {dividend divisor : Int} (nonzero : divisor ≠ 0) :
    TruncatesTo dividend divisor (dividend.tdiv divisor) := by
  refine ⟨dividend.tmod divisor, (Int.tdiv_mul_add_tmod dividend divisor).symm, ?_, ?_⟩
  · rw [Int.abs_eq_natAbs, Int.abs_eq_natAbs, Int.natAbs_tmod]
    exact Int.ofNat_lt.mpr (Nat.mod_lt _ (Int.natAbs_pos.mpr nonzero))
  · by_cases divides : divisor ∣ dividend
    · exact .inl (Int.tmod_eq_zero_of_dvd divides)
    · exact .inr (by rw [Int.sign_tmod, if_neg divides])

/-- Of all quotients only one does not fit in 32 bits. -/
theorem toInt_div_of_fits {left right : Int32}
    (fits : ¬ (left.toInt = -2 ^ 31 ∧ right.toInt = -1)) :
    (left / right).toInt = left.toInt.tdiv right.toInt := by
  by_cases smallest : left = Int32.minValue
  · refine Int32.toInt_div_of_ne_right _ _ ?_
    rintro rfl
    exact fits (by simp [smallest])
  · exact Int32.toInt_div_of_ne_left _ _ smallest

/-- The results that are found are those of the table. -/
theorem Arithmetic.computes_of_apply? {operation : Arithmetic} {left right value : Int32}
    (result : operation.apply? left right = some value) : operation.Computes left right value := by
  cases operation with
  | add =>
    obtain rfl := Option.some.inj result
    exact wrapsTo_of_toInt_eq (Int32.toInt_add _ _)
  | sub =>
    obtain rfl := Option.some.inj result
    exact wrapsTo_of_toInt_eq (Int32.toInt_sub _ _)
  | mul =>
    obtain rfl := Option.some.inj result
    exact wrapsTo_of_toInt_eq (Int32.toInt_mul _ _)
  | div =>
    simp only [Option.ite_none_left_eq_some, Arithmetic.apply?, Option.some.injEq] at result
    obtain ⟨nonzero, rfl⟩ := result
    have divisor : right.toInt ≠ 0 := fun zero => nonzero (Int32.toInt_inj.mp zero)
    refine ⟨divisor, ?_⟩
    split_ifs with overflows
    · rw [Int32.toInt_div, overflows.1, overflows.2]
      decide
    · rw [toInt_div_of_fits overflows]
      exact truncatesTo_tdiv divisor

theorem Condition.holds_iff {condition : Condition} {value : Int32} :
    condition.holds value = true ↔ condition.Asks value.toInt := by
  cases condition <;> simp [holds, Asks, ← Int32.toInt_inj]

/-- A byte is extended by zeros. -/
theorem toInt_ofNat_byte (byte : UInt8) : (Int32.ofNat byte.toNat).toInt = byte.toNat := by
  have := byte.toNat_lt
  rw [Int32.toInt_ofNat']
  exact Int.bmod_eq_of_le (by simp [Int32.size]) (by simp [Int32.size]; omega)

/-- A memory cell takes the value of a register modulo `2 ^ 16`. -/
theorem toNat_toUInt16 (value : Int32) :
    (value.toUInt32.toUInt16.toNat : Int) = value.toInt % 2 ^ 16 := by
  have signed : value.toInt = (value.toUInt32.toNat : Int).bmod (2 ^ 32) :=
    BitVec.toInt_eq_toNat_bmod _
  have congruent : (value.toUInt32.toNat : Int).bmod (2 ^ 32) % ↑(2 ^ 32 : Nat) =
      value.toUInt32.toNat % ↑(2 ^ 32 : Nat) := Int.bmod_emod
  rw [signed, UInt32.toNat_toUInt16]
  omega

/-! ### The table -/

/-- Two machines have the same registers and the same memory, but for the given ones. -/
structure Machine.SameBut (before after : Machine) (registers : Set Register)
    (cells : Set Address) : Prop where
  registers : ∀ register ∉ registers, after.register register = before.register register
  cells : ∀ address ∉ cells, after.cell address = before.cell address

/-- How a run goes on after an instruction: not at all, at an address, or at the next one. -/
inductive Continuation
  | halt
  | jump (target : Address)
  | next

/-- **The table of instructions.** Values are those before the instruction, also when it names one
register several times. -/
inductive Instr.Means (before after : Machine) : Instr → Continuation → Prop
  | load {destination : Register} {byte : UInt8}
      (value : (after.register destination).toInt = byte.toNat)
      (others : before.SameBut after {destination} ∅) :
      Means before after (.load destination byte) .next
  | store {source : Register} {byte : UInt8}
      (word : ((after.cell (.ofByte byte)).toNat : Int) = (before.register source).toInt % 2 ^ 16)
      (others : before.SameBut after ∅ {Address.ofByte byte}) :
      Means before after (.store source byte) .next
  | arithmetic {operation : Arithmetic} {destination left right : Register}
      (value : operation.Computes (before.register left) (before.register right)
        (after.register destination))
      (others : before.SameBut after {destination} ∅) :
      Means before after (.arithmetic operation destination left right) .next
  | jump {target : Address} (others : before.SameBut after ∅ ∅) :
      Means before after (.jump target) (.jump target)
  | taken {condition : Condition} {tested : Register} {target : UInt8}
      (asked : condition.Asks (before.register tested).toInt)
      (others : before.SameBut after ∅ ∅) :
      Means before after (.branch condition tested target) (.jump (.ofByte target))
  | untaken {condition : Condition} {tested : Register} {target : UInt8}
      (unasked : ¬ condition.Asks (before.register tested).toInt)
      (others : before.SameBut after ∅ ∅) :
      Means before after (.branch condition tested target) .next
  | halt (others : before.SameBut after ∅ ∅) : Means before after .halt .halt

/-- An instruction that the table has no result for. -/
def Instr.DividesByZero (machine : Machine) (instr : Instr) : Prop :=
  ∃ destination left right, instr = .arithmetic .div destination left right ∧
    machine.register right = 0

namespace Machine

variable {machine next : Machine} {instr : Instr} {effect : Effect}

theorem sameBut_setRegister (machine : Machine) (register : Register) (value : Int32) :
    machine.SameBut (machine.setRegister register value) {register} ∅ :=
  ⟨fun other apart => by rw [register_setRegister, if_neg (Ne.symm apart)], fun _ _ => rfl⟩

theorem sameBut_setCell (machine : Machine) (address : Address) (word : Word) :
    machine.SameBut (machine.setCell address word) ∅ {address} :=
  ⟨fun _ _ => rfl, fun other apart => by rw [cell_setCell, if_neg (Ne.symm apart)]⟩

theorem SameBut.refl (machine : Machine) : machine.SameBut machine ∅ ∅ :=
  ⟨fun _ _ => rfl, fun _ _ => rfl⟩

end Machine

/-- How a run goes on after an effect that has led to a machine. -/
def Effect.continuation (next : Machine) : Effect → Continuation
  | halt => .halt
  | jump _ => .jump next.pc
  | _ => .next

theorem Effect.continuation_of_passes {next : Machine} {effect : Effect}
    (passes : effect.Passes) : effect.continuation next = .next := by
  cases effect with
  | jump => exact passes.elim
  | halt => exact passes.elim
  | _ => rfl

namespace Instr

variable {machine next : Machine} {instr : Instr} {effect : Effect}

/-- The table is about registers and memory only. -/
theorem Means.withPc {continuation : Continuation} (means : instr.Means machine next continuation)
    (pc : Address) : instr.Means machine { next with pc } continuation := by
  have same {registers : Set Register} {cells : Set Address}
      (others : machine.SameBut next registers cells) :
      machine.SameBut { next with pc } registers cells := ⟨others.registers, others.cells⟩
  cases means with
  | load value others => exact .load value (same others)
  | store word others => exact .store word (same others)
  | arithmetic value others => exact .arithmetic value (same others)
  | jump others => exact .jump (same others)
  | taken asked others => exact .taken asked (same others)
  | untaken unasked others => exact .untaken unasked (same others)
  | halt others => exact .halt (same others)

/-- An instruction is executed as the table says. -/
theorem means_of_execute (executed : machine.execute instr = .ok effect next) :
    instr.Means machine next (effect.continuation next) := by
  cases instr with
  | load destination byte =>
    cases executed
    refine .load ?_ (machine.sameBut_setRegister _ _)
    rw [Machine.register_setRegister, if_pos rfl, toInt_ofNat_byte]
  | store source byte =>
    cases executed
    refine .store ?_ (machine.sameBut_setCell _ _)
    rw [Machine.cell_setCell, if_pos rfl, toNat_toUInt16]
  | arithmetic operation destination left right =>
    cases result : operation.apply? (machine.register left) (machine.register right) with
    | none =>
      rw [Machine.execute_arithmetic_of_none result] at executed
      cases executed
    | some value =>
      rw [Machine.execute_arithmetic_of_some result] at executed
      cases executed
      refine .arithmetic ?_ (machine.sameBut_setRegister _ _)
      rw [Machine.register_setRegister, if_pos rfl]
      exact Arithmetic.computes_of_apply? result
  | jump target =>
    cases executed
    exact (Means.jump (.refl machine)).withPc target
  | branch condition tested target =>
    rw [Machine.execute_branch] at executed
    by_cases holds : condition.holds (machine.register tested) = true
    · rw [if_pos holds] at executed
      cases executed
      exact (Means.taken (Condition.holds_iff.mp holds) (.refl machine)).withPc (.ofByte target)
    · rw [if_neg holds] at executed
      cases executed
      exact .untaken (mt Condition.holds_iff.mpr holds) (.refl machine)
  | halt =>
    cases executed
    exact .halt (.refl machine)

end Instr

/-! ### Steps -/

namespace Engine

/-- Where a run stands after an instruction. There is no next address after the last one. -/
def GoesOn (engine next : Engine) : Continuation → Prop
  | .halt => next.status = .halted ∧ next.machine.pc = engine.machine.pc
  | .jump target => next.status = .running ∧ next.machine.pc = target
  | .next =>
    if engine.machine.pc.val = 4095 then
      next.status = .faulted .programCounterOverflow ∧ next.machine.pc = engine.machine.pc
    else next.status = .running ∧ next.machine.pc.val = engine.machine.pc.val + 1

/-- An engine has carried out one instruction as the table says, and nothing else. -/
structure Performs (engine : Engine) (instr : Instr) (next : Engine) : Prop where
  means : ∃ continuation, instr.Means engine.machine next.machine continuation ∧
    engine.GoesOn next continuation
  steps : next.steps = engine.steps + 1
  budget : next.budget = engine.budget

variable {engine after : Engine} {instr : Instr} {notices : List Notice}

/-- A step that does not refuse an instruction performs it. -/
theorem performs_of_transition (running : engine.status = .running)
    (transition : Transition engine after notices) : (∃ fault, engine.Refuses fault) ∨
      ∃ instr, Instr.decode (engine.machine.cell engine.machine.pc) = .ok instr ∧
        engine.Performs instr after := by
  cases transition with
  | refuse refuses => exact .inl ⟨_, refuses⟩
  | halt executes =>
    have same : _ = engine.machine := Machine.changes_of_execute executes.executed
    have means := Instr.means_of_execute executes.executed
    exact .inr ⟨_, executes.decoded, ⟨_, means, rfl, congrArg Machine.pc same⟩, rfl, rfl⟩
  | jump executes =>
    have means := Instr.means_of_execute executes.executed
    exact .inr ⟨_, executes.decoded, ⟨_, means, running, rfl⟩, rfl, rfl⟩
  | @pass _ next effect pc executes passes following =>
    have means := Instr.means_of_execute executes.executed
    have changes := Machine.changes_of_execute executes.executed
    rw [Effect.continuation_of_passes passes] at means
    rw [changes.pc_of_passes passes] at following
    have room : engine.machine.pc.val ≠ 4095 := by
      have := pc.isLt
      omega
    refine .inr ⟨_, executes.decoded, ⟨_, means.withPc pc, ?_⟩, rfl, rfl⟩
    exact (if_neg room).mpr ⟨running, following⟩
  | overflow executes passes last =>
    have means := Instr.means_of_execute executes.executed
    have same := (Machine.changes_of_execute executes.executed).pc_of_passes passes
    rw [Effect.continuation_of_passes passes] at means
    rw [same] at last
    refine .inr ⟨_, executes.decoded, ⟨_, means, ?_⟩, rfl, rfl⟩
    exact (if_pos last).mpr ⟨rfl, same⟩

/-- A step performs the instruction that it executes. -/
theorem performs_of_executes (running : engine.status = .running) {next : Machine}
    {effect : Effect} (executes : engine.Executes instr next effect) :
    engine.Performs instr engine.step.1 := by
  rcases performs_of_transition running (transition_step running) with
    ⟨fault, refuses⟩ | ⟨other, decoded, performs⟩
  · exact absurd refuses executes.not_refuses
  · obtain rfl := Except.ok.inj (executes.decoded.symm.trans decoded)
    exact performs

/-- An engine executes the instruction that it finds, unless that divides by zero. -/
theorem exists_executes (unspent : ∀ budget ∈ engine.budget, engine.steps < budget)
    (decoded : Instr.decode (engine.machine.cell engine.machine.pc) = .ok instr)
    (divisible : ¬ instr.DividesByZero engine.machine) :
    ∃ next effect, engine.Executes instr next effect := by
  rcases refuses_or_executes engine with ⟨fault, refuses⟩ | ⟨other, next, effect, executes⟩
  · cases refuses with
    | spent limit reached => exact absurd (unspent _ limit) (Nat.not_lt_of_le reached)
    | unknown _ undecoded => cases decoded.symm.trans undecoded
    | division _ divides zero =>
      obtain rfl := Except.ok.inj (decoded.symm.trans divides)
      exact absurd ⟨_, _, _, rfl, zero⟩ divisible
  · obtain rfl := Except.ok.inj (decoded.symm.trans executes.decoded)
    exact ⟨next, effect, executes⟩

/-- An engine refuses to divide by zero. -/
theorem refuses_of_dividesByZero (unspent : ∀ budget ∈ engine.budget, engine.steps < budget)
    (decoded : Instr.decode (engine.machine.cell engine.machine.pc) = .ok instr)
    (divides : instr.DividesByZero engine.machine) :
    engine.Refuses (.divisionByZero engine.machine.pc.toWord) := by
  obtain ⟨destination, left, right, rfl, zero⟩ := divides
  exact .division unspent decoded zero

/-- **A step obeys the table of instructions**, in every state and with whichever registers and
cells an instruction names. A division by zero is not carried out: the run faults, and nothing else
changes. -/
theorem step_performs (running : engine.status = .running)
    (unspent : ∀ budget ∈ engine.budget, engine.steps < budget)
    (decoded : Instr.decode (engine.machine.cell engine.machine.pc) = .ok instr) :
    (¬ instr.DividesByZero engine.machine → engine.Performs instr engine.step.1) ∧
      (instr.DividesByZero engine.machine → engine.step.1 =
        { engine with status := .faulted (.divisionByZero engine.machine.pc.toWord) }) := by
  constructor
  · intro divisible
    obtain ⟨next, effect, executes⟩ := exists_executes unspent decoded divisible
    exact performs_of_executes running executes
  · intro divides
    rw [step_of_refuses running (refuses_of_dividesByZero unspent decoded divides)]
    rfl

/-- In the last cell, the smallest integer in a register is divided by -1 into the same register.
The quotient is the smallest integer, and there is no next address. -/
theorem performs_overflowing_quotient :
    let divided := (Machine.fresh.setCell 4095 0x6112).setRegister ⟨1⟩ (-2147483648)
    let prepared := { divided.setRegister ⟨2⟩ (-1) with pc := 4095 }
    let engine := ofMachine prepared (some 1)
    let instr : Instr := .arithmetic .div ⟨1⟩ ⟨1⟩ ⟨2⟩
    engine.status = .running ∧ (∀ budget ∈ engine.budget, engine.steps < budget) ∧
      Instr.decode (engine.machine.cell engine.machine.pc) = .ok instr ∧
      ¬ instr.DividesByZero engine.machine ∧ engine.Performs instr engine.step.1 := by
  intro divided prepared engine instr
  have unspent : ∀ budget ∈ engine.budget, engine.steps < budget := by simp [engine, ofMachine]
  have decoded : Instr.decode (engine.machine.cell engine.machine.pc) = .ok instr := by
    decide +kernel
  have divisible : ¬ instr.DividesByZero engine.machine := by
    rintro ⟨_, _, _, same, zero⟩
    obtain ⟨-, -, -, rfl⟩ := Instr.arithmetic.inj same
    exact absurd zero (by decide +kernel)
  exact ⟨rfl, unspent, decoded, divisible, (step_performs rfl unspent decoded).1 divisible⟩

end Engine

end Asm16
