/-
**What holds of runs holds of runs of plain numbers.**

An `Engine` counts its instructions without a bound, a plain engine in 64 bits. Up to that bound the
two take the same steps and report the same (`Engine.step_plain`, `Engine.after_plain`), so that the
theorems about engines are about plain engines as well.

* `PlainEngine.exists_step_eq` — every plain engine in bounds takes the steps of an engine.
* `Engine.plain_performs` — a step of plain numbers obeys the table of instructions.
* `Engine.plain_faultsAs` — a fault leaves no instruction half done.
* `PlainEngine.eq_fail_of_faulted`, `PlainEngine.Reaches.eq_of_not_running` — the same for plain
  engines with any numbers, in bounds or not, and that what is over stays over.
* `Origin.Comes` — what a run of plain numbers has come to after a number of steps.
* `Origin.comes_traced` — its reports can be replayed.
* `PlainEngine.Reaches.explained` — every plain engine that steps and runs bring about explains its
  status.
-/

import Asm16.Proofs.Engine.Faults
import Asm16.Proofs.Engine.Replay
import Asm16.Proofs.Engine.Safety

namespace Asm16

/-! ### Steps -/

/-- **Every plain engine whose program counter is in memory takes the steps of an engine** with the
same numbers. -/
theorem PlainEngine.exists_step_eq {engine : PlainEngine}
    (inside : engine.machine.pc.toNat < 4096) (within : engine.steps ≤ Numeral.largest64) :
    ∃ checked : Engine, engine = checked.plain ∧
      engine.step = checked.step.1.counted checked.step.2 := by
  obtain ⟨machine, status, budget, steps⟩ := engine
  obtain ⟨checked, rfl⟩ := PlainMachine.exists_eq_plain inside
  have stepped : (Engine.plain ⟨checked, status, budget, steps⟩).step = _ :=
    Engine.step_plain within
  exact ⟨_, rfl, stepped⟩

namespace Engine

variable {engine : Engine} {instr : Instr}

/-- **A step of plain numbers obeys the table of instructions**, and there is a trap instead if the
instruction is one more than can be counted. A division by zero is not carried out: the run faults,
and nothing else changes. -/
theorem plain_performs (within : engine.steps ≤ Numeral.largest64)
    (running : engine.status = .running)
    (unspent : ∀ budget ∈ engine.budget, engine.steps < budget)
    (decoded : Instr.decode (engine.machine.cell engine.machine.pc) = .ok instr) :
    (¬ instr.DividesByZero engine.machine → ∃ next notices,
      engine.plain.step = next.counted notices ∧ engine.Performs instr next) ∧
    (instr.DividesByZero engine.machine →
      engine.plain.step = .ok (engine.plain.fail (.divisionByZero engine.machine.pc.toWord))) := by
  constructor
  · intro divisible
    obtain ⟨next, effect, executes⟩ := exists_executes unspent decoded divisible
    exact ⟨_, _, step_plain within, performs_of_executes running executes⟩
  · intro divides
    exact step_plain_of_refuses running (refuses_of_dividesByZero unspent decoded divides)

example :
    let prepared := { Engine.ofMachine (Machine.fresh.setCell 0 0x1105) none with
      steps := Numeral.largest64 }
    prepared.plain.step = .error .stepCounter := by decide +kernel

/-- A step of plain numbers that ends with a fault ends with it as the fault tells. -/
theorem plain_faultsAs (within : engine.steps ≤ Numeral.largest64) {fault : Fault}
    (before : engine.status ≠ .faulted fault) {next : PlainEngine} {notices : List PlainNotice}
    (stepped : engine.plain.step = .ok (next, notices)) (faulted : next.status = .faulted fault) :
    ∃ after reported, next = after.plain ∧ notices = reported.map Notice.plain ∧
      engine.FaultsAs after reported fault := by
  rw [step_plain within] at stepped
  obtain ⟨-, rfl, rfl⟩ := counted_eq_ok stepped
  exact ⟨_, _, rfl, rfl, faultsAs_step before faulted⟩

end Engine

namespace PlainEngine

variable {engine next : PlainEngine} {notices : List PlainNotice} {fault : Fault}

/-- A run that goes on at another address has the status that it had. -/
theorem status_of_goto {target : Word} (goes : engine.goto target = .ok (next, notices)) :
    next.status = engine.status := by
  unfold goto PlainMachine.setPc at goes
  split at goes
  · cases goes
    rfl
  · cases goes

/-- After an instruction a run can only fault because there is no next address. -/
theorem eq_overflow_of_proceed {pc : Word} {effect : PlainEffect}
    (running : engine.status = .running) (proceeds : engine.proceed pc effect = .ok (next, notices))
    (faulted : next.status = .faulted fault) : fault = .programCounterOverflow := by
  have moved {target : Word} (goes : engine.goto target = .ok (next, notices)) :
      fault = .programCounterOverflow := by
    cases running.symm.trans ((status_of_goto goes).symm.trans faulted)
  cases effect with
  | halt =>
    cases proceeds
    cases faulted
  | jump target => exact moved proceeds
  | register | memory | notTaken =>
    unfold proceed at proceeds
    dsimp only at proceeds
    split at proceeds
    · cases proceeds
      exact (Status.faulted.inj faulted).symm
    · cases incremented : increment pc with
      | error trap =>
        rw [incremented] at proceeds
        cases proceeds
      | ok target =>
        rw [incremented] at proceeds
        exact moved proceeds

/-- **A fault in the place of an instruction changes nothing but the status**, whatever the numbers
of the engine and of its instruction are. -/
theorem eq_fail_of_faulted (running : engine.status = .running)
    (stepped : engine.step = .ok (next, notices)) (faulted : next.status = .faulted fault)
    (early : fault ≠ .programCounterOverflow) : (next, notices) = engine.fail fault := by
  have failed {other : Fault} (same : engine.step = .ok (engine.fail other)) :
      (next, notices) = engine.fail fault := by
    cases stepped.symm.trans same
    obtain rfl := Status.faulted.inj faulted
    rfl
  cases spent : engine.spentBudget? with
  | some budget => exact failed (step_of_spent running spent)
  | none =>
    cases outcome : PlainMachine.executeNext engine.machine.pc engine.machine with
    | error broken machine =>
      cases broken with
      | fault other => exact failed (step_of_breaks running spent outcome)
      | trap trap =>
        simp only [step, running, spent, outcome] at stepped
        cases stepped
    | ok answer machine =>
      obtain ⟨word, instr, effect⟩ := answer
      by_cases counts : engine.steps + 1 ≤ Numeral.largest64
      · rw [step_of_executeNext running spent outcome counts] at stepped
        cases proceeds : PlainEngine.proceed
            { engine with machine, steps := engine.steps + 1 } engine.machine.pc effect with
        | error trap =>
          rw [proceeds] at stepped
          cases stepped
        | ok proceeded =>
          rw [proceeds] at stepped
          cases stepped
          refine absurd (eq_overflow_of_proceed ?_ proceeds faulted) early
          exact running
      · rw [step_of_uncounted running spent outcome counts] at stepped
        cases stepped

/-! ### Runs -/

/-- The plain engines that steps and runs bring about. A run takes steps until it is over. -/
inductive Reaches (start : PlainEngine) : PlainEngine → Prop
  | start : Reaches start start
  | step {engine next : PlainEngine} {notices : List PlainNotice} (reached : Reaches start engine)
      (stepped : engine.step = .ok (next, notices)) : Reaches start next
  | run {engine final : PlainEngine} {count : Nat} {notices : List PlainNotice}
      (reached : Reaches start engine) (ran : engine.after count = .ok (final, notices))
      (ended : final.status ≠ .running) : Reaches start final

/-- Neither steps nor runs change what is over. -/
theorem Reaches.eq_of_not_running {engine final : PlainEngine} (stopped : engine.status ≠ .running)
    (reached : engine.Reaches final) : final = engine := by
  induction reached with
  | start => rfl
  | step _ stepped ih =>
    subst ih
    rw [step_of_not_running stopped] at stepped
    cases stepped
    rfl
  | run _ ran _ ih =>
    subst ih
    rw [after_of_not_running stopped] at ran
    cases ran
    rfl

/-- What steps and runs of plain numbers bring about, steps and runs of the engine bring about. -/
theorem Reaches.exists_eq_plain {start : Engine} (begins : start.steps ≤ Numeral.largest64)
    {engine : PlainEngine} (reached : start.plain.Reaches engine) :
    ∃ final : Engine, engine = final.plain ∧ final.steps ≤ Numeral.largest64 ∧
      start.Reaches final := by
  induction reached with
  | start => exact ⟨start, rfl, begins, .start⟩
  | step _ stepped ih =>
    obtain ⟨final, rfl, within, reaches⟩ := ih
    rw [Engine.step_plain within] at stepped
    obtain ⟨within, rfl, -⟩ := Engine.counted_eq_ok stepped
    exact ⟨_, rfl, within, reaches.step⟩
  | run _ ran ended ih =>
    obtain ⟨final, rfl, within, reaches⟩ := ih
    rw [Engine.after_plain within] at ran
    obtain ⟨within, rfl, -⟩ := Engine.counted_eq_ok ran
    exact ⟨_, rfl, within, reaches.after _⟩

/-- **Every plain engine that steps and runs bring about explains its status.** -/
theorem Reaches.explained {origin : Origin} {budget : Option Nat} {engine : PlainEngine}
    (reached : (origin.plain.engine budget).Reaches engine) :
    ∃ final : Engine, engine = final.plain ∧ final.Explained origin budget := by
  rw [origin.engine_plain] at reached
  have begins := (origin.steps_engine budget).trans_le (Nat.zero_le Numeral.largest64)
  obtain ⟨final, same, -, reaches⟩ := reached.exists_eq_plain begins
  exact ⟨final, same, (Engine.sound_of_reaches reaches).toExplained⟩

end PlainEngine

namespace Origin

/-- What a run of plain numbers has come to after a number of steps: the plain numbers of an engine
and of notices that are as they should be or, without a budget, more instructions than can be
counted. -/
inductive Comes (origin : Origin) (budget : Option UInt64) (count : Nat)
    (Holds : Engine → List Notice → Prop) : Prop
  | counted {engine : Engine} {notices : List Notice}
      (within : engine.steps ≤ Numeral.largest64)
      (after : (origin.plain.engine (budget.map UInt64.toNat)).after count =
        .ok (engine.plain, notices.map Notice.plain))
      (holds : Holds engine notices)
  | uncounted (unlimited : budget = none) (many : Numeral.largest64 < count)
      (after : (origin.plain.engine (budget.map UInt64.toNat)).after count = .error .stepCounter)

/-- What holds of an engine and its reports after a number of steps is what plain numbers come
to. -/
theorem comes_of_after {origin : Origin} {budget : Option UInt64} {count : Nat}
    {Holds : Engine → List Notice → Prop}
    (holds : Holds ((origin.engine (budget.map UInt64.toNat)).after count)
      ((origin.engine (budget.map UInt64.toNat)).reports count)) :
    origin.Comes budget count Holds := by
  rcases origin.after_plain budget count with ⟨within, after⟩ | ⟨unlimited, many, after⟩
  · exact .counted within after holds
  · exact .uncounted unlimited many after

/-- **The reports of a run of plain numbers can be replayed**, whatever it started with and however
far it got. -/
theorem comes_traced {origin : Origin} (fits : origin.Fits) (budget : Option UInt64)
    (count : Nat) : origin.Comes budget count
      (Engine.Traced (.ofMachine (origin.engine (budget.map UInt64.toNat)).machine)) := by
  refine comes_of_after ?_
  obtain ⟨machine, same⟩ := exists_engine_eq_ofMachine fits (budget.map UInt64.toNat)
  rw [same]
  exact (Engine.recorded_after machine _ count).traced

end Origin

end Asm16
