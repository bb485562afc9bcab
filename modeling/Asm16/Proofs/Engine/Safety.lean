/-
**A run never leaves its bounds.**

* `PlainEngine.Safe` — the program counter is in memory, no access was out of bounds, and the
  executed instructions are within the budget.
* `Origin.after_plain` — a run of plain numbers takes the steps of an engine and reports what
  the engine reports, unless there are more instructions than can be counted.
* `PlainOrigin.runs_safely` — a run of plain numbers takes any number of steps without a trap and is
  safe after them; only without a budget it can end up with more instructions than can be counted.
-/

import Asm16.Proofs.Engine.Ending
import Asm16.Proofs.Engine.Lifetime
import Asm16.Proofs.Engine.Plain

namespace Asm16

namespace Engine

variable {engine : Engine}

/-! ### Faults that never occur -/

/-- The only refused access is a program that does not fit in memory. -/
def OnlyTooLarge (engine : Engine) : Prop :=
  ∀ error, engine.status = .faulted (.access error) → ∃ length, error = .programTooLarge length

theorem onlyTooLarge_engine (origin : Origin) (budget : Option Nat) :
    (origin.engine budget).OnlyTooLarge := by
  by_cases fits : origin.Fits
  · obtain ⟨machine, same⟩ := Origin.exists_engine_eq_ofMachine fits budget
    rw [same]
    exact nofun
  · cases origin with
    | machine prepared => exact absurd trivial fits
    | program words =>
      rw [Origin.engine_program_of_lt (Nat.lt_of_not_le fits)]
      rintro _ ⟨⟩
      exact ⟨words.length, rfl⟩

/-- No instruction is refused for an access out of bounds. -/
theorem onlyTooLarge_of_transition {next : Engine} {notices : List Notice}
    (running : engine.status = .running) (transition : Transition engine next notices) :
    next.OnlyTooLarge := by
  intro error faulted
  cases transition with
  | refuse refuses => cases refuses <;> cases faulted
  | halt => cases faulted
  | jump => cases running.symm.trans faulted
  | pass => cases running.symm.trans faulted
  | overflow => cases faulted

end Engine

/-! ### Safety -/

/-- A plain engine has kept within its bounds. -/
structure PlainEngine.Safe (budget : Option Nat) (engine : PlainEngine) : Prop where
  counter : engine.machine.pc.toNat < 4096
  registers : ∀ index, engine.status ≠ .faulted (.access (.invalidRegister index))
  addresses : ∀ address, engine.status ≠ .faulted (.access (.invalidAddress address))
  within : ∀ limit ∈ budget, engine.steps ≤ limit

theorem Origin.steps_engine (origin : Origin) (budget : Option Nat) :
    (origin.engine budget).steps = 0 := by
  cases origin with
  | machine prepared => rfl
  | program words =>
    show (Engine.new words budget).steps = 0
    unfold Engine.new
    split <;> rfl

/-- The engines that a run brings about are safe. -/
theorem Engine.safe_plain_after (origin : Origin) (budget : Option Nat) (count : Nat) :
    ((origin.engine budget).after count).plain.Safe budget := by
  have sound := sound_after origin budget count
  have only := run_invariant (P := fun engine _ => OnlyTooLarge engine)
    (onlyTooLarge_engine origin budget) (fun _ => onlyTooLarge_of_transition) count
  refine ⟨?_, fun index faulted => ?_, fun address faulted => ?_, sound.within⟩
  · show (Address.toWord _).toNat < 4096
    rw [Address.toNat_toWord]
    exact Fin.isLt _
  · obtain ⟨length, different⟩ := only _ faulted
    cases different
  · obtain ⟨length, different⟩ := only _ faulted
    cases different

/-- How a run of plain numbers starts: with a program in a fresh machine, or with a prepared
machine. -/
inductive PlainOrigin
  | program (words : List Word)
  | machine (machine : PlainMachine)

namespace PlainOrigin

/-- The plain engine at the start of a run. -/
def engine (budget : Option Nat) : PlainOrigin → PlainEngine
  | program words => (Engine.new words budget).plain
  | machine prepared => .ofMachine prepared budget

/-- The program counter of a prepared machine is in memory. -/
def Ready : PlainOrigin → Prop
  | program _ => True
  | machine prepared => prepared.pc.toNat < 4096

end PlainOrigin

namespace Origin

/-- An origin in plain numbers. -/
def plain : Origin → PlainOrigin
  | program words => .program words
  | machine prepared => .machine prepared.plain

theorem engine_plain (origin : Origin) (budget : Option Nat) :
    origin.plain.engine budget = (origin.engine budget).plain := by
  cases origin <;> rfl

/-- An origin whose program counter is in memory consists of the plain numbers of an origin. -/
theorem exists_eq_plain {origin : PlainOrigin} (ready : origin.Ready) :
    ∃ checked : Origin, origin = checked.plain := by
  cases origin with
  | program words => exact ⟨.program words, rfl⟩
  | machine prepared =>
    obtain ⟨checked, rfl⟩ := PlainMachine.exists_eq_plain ready
    exact ⟨.machine checked, rfl⟩

/-- A run of plain numbers takes the steps of an engine and reports what the engine reports. Only
without a budget the executed instructions may be too many to be counted. -/
theorem after_plain (origin : Origin) (budget : Option UInt64) (count : Nat) :
    let limit := budget.map UInt64.toNat
    (((origin.engine limit).after count).steps ≤ Numeral.largest64 ∧
      (origin.plain.engine limit).after count = .ok (((origin.engine limit).after count).plain,
        ((origin.engine limit).reports count).map Notice.plain)) ∨
    (budget = none ∧ Numeral.largest64 < count ∧
      (origin.plain.engine limit).after count = .error .stepCounter) := by
  intro limit
  have begins := origin.steps_engine limit
  have after := Engine.after_plain (begins.trans_le (Nat.zero_le _)) count
  rw [Engine.counted, ← engine_plain] at after
  by_cases counts : ((origin.engine limit).after count).steps ≤ Numeral.largest64
  · rw [if_pos counts] at after
    exact .inl ⟨counts, after⟩
  · rw [if_neg counts] at after
    have bound := Engine.steps_after_le (origin.engine limit) count
    refine .inr ⟨?_, by omega, after⟩
    cases budget with
    | none => rfl
    | some budget =>
      -- A budget has 64 bits itself and ends the run before there are too many instructions.
      have within := (Engine.safe_plain_after origin limit count).within budget.toNat rfl
      exact absurd (within.trans (Nat.le_pred_of_lt budget.toNat_lt)) counts

end Origin

namespace PlainOrigin

/-- A run of plain numbers takes the steps of an engine, reports what the engine reports, and is
safe after any number of steps. There is no trap, but that without a budget the executed
instructions may be too many to be counted. -/
def RunsSafely (origin : PlainOrigin) (budget : Option UInt64) : Prop :=
  let limit := budget.map UInt64.toNat
  ∃ checked : Origin, origin.engine limit = (checked.engine limit).plain ∧ ∀ count,
    ((origin.engine limit).after count = .ok (((checked.engine limit).after count).plain,
        ((checked.engine limit).reports count).map Notice.plain) ∧
      ((checked.engine limit).after count).plain.Safe limit) ∨
    (budget = none ∧ Numeral.largest64 < count ∧
      (origin.engine limit).after count = .error .stepCounter)

/-- **A run never leaves its bounds**, whatever program it starts with, and whatever machine whose
program counter is in memory. -/
theorem runs_safely (origin : PlainOrigin) (ready : origin.Ready) (budget : Option UInt64) :
    origin.RunsSafely budget := by
  obtain ⟨checked, rfl⟩ := Origin.exists_eq_plain ready
  refine ⟨checked, checked.engine_plain _, fun count => ?_⟩
  rcases checked.after_plain budget count with ⟨-, after⟩ | uncounted
  · exact .inl ⟨after, Engine.safe_plain_after checked _ count⟩
  · exact .inr uncounted

/-- The smallest integer is divided by -1 in the last memory cell. The quotient wraps, and the run
ends there. -/
theorem runs_safely_smallest_by_minus_one :
    let prepared : PlainMachine :=
      { memory := (Vector.replicate 4096 0).set 4095 0x6312
        pc := 4095
        registers := ((Vector.replicate 16 0).set 1 (-2147483648)).set 2 (-1) }
    let origin := machine prepared
    origin.Ready ∧ origin.RunsSafely (some 9) ∧
      ((origin.engine (some 9)).after 1).toOption.map (fun (engine, notices) =>
        (engine.status, engine.machine.registers[3], notices)) =
          some (.faulted .programCounterOverflow, -2147483648,
            [.executed ⟨1, 4095, 0x6312, .arithmetic .div 3 1 2, .register 3 0 (-2147483648)⟩,
              .faulted 4095 .programCounterOverflow]) := by
  intro prepared origin
  have ready : origin.Ready := show (4095 : Word).toNat < 4096 by decide
  exact ⟨ready, runs_safely origin ready (some 9), by decide +kernel⟩

end PlainOrigin

end Asm16
