/-
**The final state explains how a run ended.**

* `Engine.Explained` — for each way in which a run ends, what the machine, the number of steps and
  the origin of the run have to be like.
* `Engine.sound_of_transition` — the step that ends a run leaves its reasons in place.
* `Engine.explained_of_reaches` — every engine that steps and runs bring about explains its status.
-/

import Asm16.Proofs.Engine.Origin

namespace Asm16

namespace Engine

/-- What the status of an engine says about its machine, its number of steps and its origin. -/
structure Explained (origin : Origin) (budget : Option Nat) (engine : Engine) : Prop where
  halted : engine.status = .halted →
    Instr.decode (engine.machine.cell engine.machine.pc) = .ok .halt ∧ 1 ≤ engine.steps
  unknownOpcode : ∀ opcode pc, engine.status = .faulted (.unknownOpcode opcode pc) →
    pc = engine.machine.pc.toWord ∧
      opcode.toNat = (engine.machine.cell engine.machine.pc).toNat >>> 12 ∧
      ∀ instr, Instr.decode (engine.machine.cell engine.machine.pc) ≠ .ok instr
  divisionByZero : ∀ pc, engine.status = .faulted (.divisionByZero pc) →
    pc = engine.machine.pc.toWord ∧ ∃ destination left right,
      Instr.decode (engine.machine.cell engine.machine.pc) =
        .ok (.arithmetic .div destination left right) ∧ engine.machine.register right = 0
  overflow : engine.status = .faulted .programCounterOverflow →
    engine.machine.pc = 4095 ∧ 1 ≤ engine.steps ∧ ∃ instr,
      Instr.decode (engine.machine.cell 4095) = .ok instr ∧ instr ≠ .halt ∧
      (∀ target, instr ≠ .jump target) ∧
      ∀ condition tested target, instr = .branch condition tested target →
        condition.holds (engine.machine.register tested) = false
  budgetExceeded : ∀ limit, engine.status = .faulted (.stepBudgetExceeded limit) →
    budget = some limit ∧ engine.steps = limit
  tooLarge : ∀ length, engine.status = .faulted (.access (.programTooLarge length)) →
    ∃ words, origin = .program words ∧ words.length = length ∧ 4096 < length ∧
      engine.steps = 0 ∧ engine.machine = .fresh

/-- A run stays within its budget, and its status is explained. -/
structure Sound (origin : Origin) (budget : Option Nat) (engine : Engine) : Prop
    extends Explained origin budget engine where
  sameBudget : engine.budget = budget
  within : ∀ limit ∈ budget, engine.steps ≤ limit

variable {origin : Origin} {budget : Option Nat} {engine next : Engine}

/-- There is nothing to explain while a run goes on. -/
theorem explained_of_running (running : engine.status = .running) :
    Explained origin budget engine := by
  have apart {status : Status} (ended : status ≠ .running) : engine.status ≠ status := by
    rw [running]
    exact ended.symm
  refine ⟨fun ended => ?_, fun opcode pc ended => ?_, fun pc ended => ?_, fun ended => ?_,
    fun limit ended => ?_, fun length ended => ?_⟩ <;> exact absurd ended (apart nofun)

theorem sound_engine (origin : Origin) (budget : Option Nat) :
    Sound origin budget (origin.engine budget) := by
  by_cases fits : origin.Fits
  · obtain ⟨machine, same⟩ := Origin.exists_engine_eq_ofMachine fits budget
    rw [same]
    exact ⟨explained_of_running rfl, rfl, fun limit _ => Nat.zero_le limit⟩
  · cases origin with
    | machine prepared => exact absurd trivial fits
    | program words =>
      have large : 4096 < words.length := Nat.lt_of_not_le fits
      rw [Origin.engine_program_of_lt large]
      refine ⟨⟨nofun, nofun, nofun, nofun, nofun, ?_⟩, rfl, fun limit _ => Nat.zero_le limit⟩
      rintro length ⟨⟩
      exact ⟨words, rfl, rfl, large, rfl, rfl⟩

theorem toNat_opcode_of_decode {word : Word} {error : UnknownOpcode}
    (decoded : Instr.decode word = .error error) : error.opcode.toNat = word.toNat >>> 12 := by
  have same : error = ⟨word⟩ := by
    unfold Instr.decode at decoded
    split at decoded <;> cases decoded
    rfl
  have bound := word.toNat_lt
  have small : word.toNat / 4096 < 2 ^ 8 := by omega
  rw [same, UnknownOpcode.opcode, UInt8.toNat_ofNat', Nat.shiftRight_eq_div_pow]
  exact Nat.mod_eq_of_lt small

/-- The step that ends a run leaves in place what explains its end. -/
theorem sound_of_transition {notices : List Notice} (sound : Sound origin budget engine)
    (running : engine.status = .running) (transition : Transition engine next notices) :
    Sound origin budget next := by
  have within_next {instr : Instr} {machine : Machine} {effect : Effect}
      (executes : engine.Executes instr machine effect) :
      ∀ limit ∈ budget, engine.steps + 1 ≤ limit := by
    rw [← sound.sameBudget]
    exact executes.unspent
  cases transition with
  | refuse refuses =>
    refine ⟨?_, sound.sameBudget, sound.within⟩
    cases refuses with
    | spent limit reached =>
      refine ⟨nofun, nofun, nofun, nofun, ?_, nofun⟩
      rintro _ ⟨⟩
      have same := sound.sameBudget.symm.trans limit
      exact ⟨same, Nat.le_antisymm (sound.within _ same) reached⟩
    | unknown unspent decoded =>
      refine ⟨nofun, ?_, nofun, nofun, nofun, nofun⟩
      rintro _ _ ⟨⟩
      refine ⟨rfl, toNat_opcode_of_decode decoded, fun instr decoded' => ?_⟩
      rw [show Instr.decode (engine.machine.cell engine.machine.pc) = _ from decoded] at decoded'
      cases decoded'
    | division unspent decoded zero =>
      refine ⟨nofun, nofun, ?_, nofun, nofun, nofun⟩
      rintro _ ⟨⟩
      exact ⟨rfl, _, _, _, decoded, zero⟩
  | @halt instr machine executes =>
    refine ⟨⟨?_, nofun, nofun, nofun, nofun, nofun⟩, sound.sameBudget, within_next executes⟩
    intro _
    obtain rfl := (Machine.execute_control executes.executed).1 rfl
    obtain rfl : machine = engine.machine := Machine.changes_of_execute executes.executed
    exact ⟨executes.decoded, Nat.le_add_left _ _⟩
  | jump executes =>
    exact ⟨explained_of_running running, sound.sameBudget, within_next executes⟩
  | pass executes =>
    exact ⟨explained_of_running running, sound.sameBudget, within_next executes⟩
  | @overflow instr machine effect executes passes last =>
    refine ⟨⟨nofun, nofun, nofun, ?_, nofun, nofun⟩, sound.sameBudget, within_next executes⟩
    intro _
    have changes := Machine.changes_of_execute executes.executed
    have atEnd : machine.pc = 4095 := Fin.ext last
    have same : machine.cell 4095 = engine.machine.cell engine.machine.pc := by
      rw [← changes.pc_of_passes passes, atEnd]
      exact changes.cell_of_le (by decide)
    refine ⟨atEnd, Nat.le_add_left _ _, instr, ?_,
      (Machine.execute_control executes.executed).2 passes⟩
    show Instr.decode (machine.cell 4095) = _
    rw [same]
    exact executes.decoded

theorem sound_of_reaches (reached : Reaches (origin.engine budget) engine) :
    Sound origin budget engine :=
  reached.invariant (sound_engine origin budget) sound_of_transition

theorem sound_after (origin : Origin) (budget : Option Nat) (count : Nat) :
    Sound origin budget ((origin.engine budget).after count) :=
  sound_of_reaches (Reaches.start.after count)

/-- **Every engine that steps and runs bring about explains its status.** -/
theorem explained_of_reaches (origin : Origin) (budget : Option Nat) {engine : Engine}
    (reached : Reaches (origin.engine budget) engine) : Explained origin budget engine :=
  (sound_of_reaches reached).toExplained

/-- A division by zero in the second cell is explained. -/
theorem explained_division_by_zero :
    let origin := Origin.machine ((Machine.fresh.setCell 0 0x1105).setCell 1 0x6312)
    let engine := (origin.engine (some 9)).step.1.step.1
    Reaches (origin.engine (some 9)) engine ∧ engine.status = .faulted (.divisionByZero 1) ∧
      Explained origin (some 9) engine := by
  intro origin engine
  have reached : Reaches (origin.engine (some 9)) engine := .step (.step .start)
  exact ⟨reached, by decide +kernel, explained_of_reaches origin (some 9) reached⟩

end Engine

end Asm16
