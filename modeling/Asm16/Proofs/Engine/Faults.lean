/-
**A fault leaves no instruction half done, and a run that is over stays over.**

* `Engine.Aborts` — a step ends with a fault before its instruction has done anything.
* `Engine.RunsOff` — a step ends with a fault after its instruction, because there is no next
  address.
* `Engine.faultsAs_of_transition` — every fault is one of the two, and which one is clear from the
  fault.
* `Engine.advances_of_stopped` — steps and runs of an engine that has halted or faulted return what
  it ended with, change nothing and report nothing.
-/

import Asm16.Proofs.Engine.Lifetime
import Asm16.Proofs.Engine.Table

namespace Asm16

namespace Engine

/-! ### What a fault leaves behind -/

/-- A step has ended with a fault in the place of its instruction: but for the status all is as
before, and only the fault is reported. -/
structure Aborts (engine : Engine) (fault : Fault) (after : Engine) (notices : List Notice) :
    Prop where
  refuses : engine.Refuses fault
  after : after = { engine with status := .faulted fault }
  notices : notices = [.faulted engine.machine.pc.toWord fault]

/-- A step has executed and reported the instruction in the last memory cell, and has then ended
with a fault because there is no next address. -/
structure RunsOff (engine after : Engine) (notices : List Notice) : Prop where
  last : engine.machine.pc.val = 4095
  executed : ∃ instr effect, Instr.decode (engine.machine.cell engine.machine.pc) = .ok instr ∧
    instr.Means engine.machine after.machine .next ∧
    effect.Changes engine.machine after.machine ∧
    notices = [.executed (engine.event instr effect),
      .faulted engine.machine.pc.toWord .programCounterOverflow]
  pc : after.machine.pc = engine.machine.pc
  steps : after.steps = engine.steps + 1
  status : after.status = .faulted .programCounterOverflow
  budget : after.budget = engine.budget

/-- How a step ends with a given fault. -/
def FaultsAs (engine after : Engine) (notices : List Notice) : Fault → Prop
  | .programCounterOverflow => engine.RunsOff after notices
  | fault => engine.Aborts fault after notices

variable {engine after : Engine} {fault : Fault} {notices : List Notice}

/-- A step that refuses its instruction does nothing else. -/
theorem aborts_of_refuses (running : engine.status = .running) (refuses : engine.Refuses fault) :
    engine.Aborts fault engine.step.1 engine.step.2 := by
  rw [step_of_refuses running refuses]
  exact ⟨refuses, rfl, rfl⟩

theorem Aborts.faultsAs (aborts : engine.Aborts fault after notices) :
    engine.FaultsAs after notices fault := by
  cases fault with
  | programCounterOverflow => cases aborts.refuses
  | _ => exact aborts

/-- A step out of the last memory cell. -/
theorem runsOff_of_executes {instr : Instr} {next : Machine} {effect : Effect}
    (executes : engine.Executes instr next effect) (passes : effect.Passes)
    (last : next.pc.val = 4095) :
    engine.RunsOff
      { engine with
        machine := next, steps := engine.steps + 1, status := .faulted .programCounterOverflow }
      [.executed (engine.event instr effect),
        .faulted next.pc.toWord .programCounterOverflow] := by
  have changes := Machine.changes_of_execute executes.executed
  have means := Instr.means_of_execute executes.executed
  have pc := changes.pc_of_passes passes
  rw [Effect.continuation_of_passes passes] at means
  rw [pc] at last ⊢
  exact {
    last
    executed := ⟨instr, effect, executes.decoded, means, changes, rfl⟩
    pc
    steps := rfl
    status := rfl
    budget := rfl }

/-- A step of a running engine that ends with a fault ends with it as the fault tells. -/
theorem faultsAs_of_transition (running : engine.status = .running)
    (transition : Transition engine after notices) (faulted : after.status = .faulted fault) :
    engine.FaultsAs after notices fault := by
  cases transition with
  | refuse refuses =>
    obtain rfl := Status.faulted.inj faulted
    exact Aborts.faultsAs ⟨refuses, rfl, rfl⟩
  | halt => cases faulted
  | jump => cases running.symm.trans faulted
  | pass => cases running.symm.trans faulted
  | overflow executes passes last =>
    obtain rfl := Status.faulted.inj faulted
    exact runsOff_of_executes executes passes last

/-- Only a running engine comes to a fault. -/
theorem faultsAs_step (before : engine.status ≠ .faulted fault)
    (faulted : engine.step.1.status = .faulted fault) :
    engine.FaultsAs engine.step.1 engine.step.2 fault := by
  have running : engine.status = .running := by
    by_contra stopped
    rw [step_of_not_running stopped] at faulted
    exact before faulted
  exact faultsAs_of_transition running (transition_step running) faulted

/-! ### Calls after the end -/

/-- A way to go on with a run. -/
inductive Advance
  | step
  | run

/-- The engine after a call and what an observer has seen by then. The call returns the status of
that engine, or its outcome. -/
def advance {σ : Type} (observe : σ → Notice → σ) (engine : Engine) (seen : σ) :
    Advance → Option (Engine × σ)
  | .step => some (engine.step.1, engine.step.2.foldl observe seen)
  | .run => engine.run observe seen

/-- The engine after calls one after another, what each of them has returned, and what an observer
has seen by then. -/
def advances {σ : Type} (observe : σ → Notice → σ) (engine : Engine) (seen : σ) :
    List Advance → Option (Engine × List Status × σ)
  | [] => some (engine, [], seen)
  | call :: rest =>
    (engine.advance observe seen call).bind fun (next, seen) =>
      (next.advances observe seen rest).map fun (last, returned, seen) =>
        (last, next.status :: returned, seen)

theorem advance_of_stopped (stopped : engine.status ≠ .running) {σ : Type}
    (observe : σ → Notice → σ) (seen : σ) (call : Advance) :
    engine.advance observe seen call = some (engine, seen) := by
  cases call with
  | step => simp [advance, step_of_not_running stopped]
  | run =>
    have ended : (engine.after 0).status ≠ .running := stopped
    exact follow_of_stopped observe seen ended (Nat.zero_le _)

/-- No number of steps and runs changes a run that is over, or gets a report out of it. -/
theorem advances_of_stopped (stopped : engine.status ≠ .running) {σ : Type}
    (observe : σ → Notice → σ) (seen : σ) (calls : List Advance) :
    engine.advances observe seen calls =
      some (engine, List.replicate calls.length engine.status, seen) := by
  induction calls with
  | nil => rfl
  | cons call rest ih => simp [advances, advance_of_stopped stopped, ih, List.replicate_succ]

/-- **Faults are atomic, and terminal states absorb.** A spent budget comes before what the next
instruction would be. -/
theorem faultsAs_and_stays :
    (∀ (engine : Engine) (fault : Fault), engine.status ≠ .faulted fault →
      engine.step.1.status = .faulted fault →
      engine.FaultsAs engine.step.1 engine.step.2 fault) ∧
    (∀ (engine : Engine) (budget : Nat), engine.status = .running →
      engine.budget = some budget → budget ≤ engine.steps →
      engine.Aborts (.stepBudgetExceeded budget) engine.step.1 engine.step.2) ∧
    ∀ engine : Engine, engine.status ≠ .running →
      ∀ {σ : Type} (observe : σ → Notice → σ) (seen : σ) (calls : List Advance),
        engine.advances observe seen calls =
          some (engine, List.replicate calls.length engine.status, seen) := by
  refine ⟨fun engine fault before faulted => faultsAs_step before faulted,
    fun engine budget running limit reached => ?_,
    fun engine stopped => advances_of_stopped stopped⟩
  exact aborts_of_refuses running (.spent limit reached)

/-- The last memory cell holds `DIV R1 R1 R2`. With a divisor of zero nothing is done, with a
divisor of -1 the quotient is there when the run faults, and with a spent budget the divisor does
not matter. -/
theorem faultsAs_division_in_last_cell :
    let divided := (Machine.fresh.setCell 4095 0x6112).setRegister ⟨1⟩ 7
    let prepared (divisor : Int32) := { divided.setRegister ⟨2⟩ divisor with pc := 4095 }
    let byZero := ofMachine (prepared 0) (some 1)
    let byMinusOne := ofMachine (prepared (-1)) (some 1)
    let spent := ofMachine (prepared 0) (some 0)
    byZero.FaultsAs byZero.step.1 byZero.step.2 (.divisionByZero 4095) ∧
      byMinusOne.FaultsAs byMinusOne.step.1 byMinusOne.step.2 .programCounterOverflow ∧
      spent.Aborts (.stepBudgetExceeded 0) spent.step.1 spent.step.2 ∧
      byZero.step.1.advances (fun count _ => count + 1) 0 [.run, .step, .run] =
        some (byZero.step.1, List.replicate 3 (.faulted (.divisionByZero 4095)), 0) := by
  intro divided prepared byZero byMinusOne spent
  obtain ⟨atomic, exceeded, absorbing⟩ := faultsAs_and_stays
  have divided : byZero.step.1.status = .faulted (.divisionByZero 4095) := by decide +kernel
  have overflowed : byMinusOne.step.1.status = .faulted .programCounterOverflow := by
    decide +kernel
  have stopped : byZero.step.1.status ≠ .running := by simp [divided]
  refine ⟨atomic byZero _ nofun divided, atomic byMinusOne _ nofun overflowed,
    exceeded spent 0 rfl rfl (Nat.zero_le 0), ?_⟩
  rw [absorbing _ stopped, divided]
  rfl

end Engine

end Asm16
