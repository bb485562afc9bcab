/-
**Running a program step by step.**

* `Engine` — a machine with the status of its run, the number of instructions executed so far and
  an optional limit to that number.
* `Engine.step` — fetches, decodes and executes one instruction, and reports what happened. An
  engine that has halted or faulted stays as it is and reports nothing.
-/

import Asm16.Machine.Execution

namespace Asm16

/-- Where a run stands. A run that has halted or faulted is over. -/
inductive Status
  | running
  | halted
  | faulted (fault : Fault)
deriving DecidableEq, Repr

/-- A run: its machine, its status, the number of instructions it may execute, if limited, and
the number it has executed. -/
structure Engine where
  machine : Machine
  status : Status
  budget : Option Nat
  steps : Nat
deriving DecidableEq

namespace Engine

/-- The run of a prepared machine from its program counter on. -/
def ofMachine (machine : Machine) (budget : Option Nat) : Engine where
  machine
  status := .running
  budget
  steps := 0

/-- The run of a program from address zero of a fresh machine. A program that does not fit in
memory has faulted before its first step. -/
def new (words : List Word) (budget : Option Nat) : Engine :=
  match Machine.fresh.load words with
  | .ok _ machine => ofMachine machine budget
  | .error error machine => { ofMachine machine budget with status := .faulted (.access error) }

/-- Ends the run with a fault at the program counter. -/
def fail (engine : Engine) (fault : Fault) : Engine × List Notice :=
  ({ engine with status := .faulted fault }, [.faulted engine.machine.pc.toWord fault])

/-- The limit on executed instructions, if it has been reached. -/
def spentBudget? (engine : Engine) : Option Nat :=
  engine.budget.filter (· ≤ engine.steps)

/-- The engine after an instruction that had the given effect on its machine. After any
instruction but a jump and a `HALT` the run goes on at the next address, if there is one. -/
def proceed (engine : Engine) (effect : Effect) : Engine × List Notice :=
  match effect with
  | .halt => ({ engine with status := .halted }, [])
  | .jump _ => (engine, [])
  | _ =>
    match engine.machine.advance? with
    | some machine => ({ engine with machine }, [])
    | none => engine.fail .programCounterOverflow

/-- The engine after its next instruction, and what there is to report. -/
def step (engine : Engine) : Engine × List Notice :=
  match engine.status with
  | .halted | .faulted _ => (engine, [])
  | .running =>
    match engine.spentBudget? with
    | some budget => engine.fail (.stepBudgetExceeded budget)
    | none =>
      let pc := engine.machine.pc
      let word := engine.machine.cell pc
      match Instr.decode word with
      | .error error => engine.fail (.unknownOpcode error.opcode pc.toWord)
      | .ok instr =>
        match engine.machine.execute instr with
        | .error fault machine => { engine with machine }.fail fault
        | .ok effect machine =>
          let steps := engine.steps + 1
          let next := { engine with machine, steps }.proceed effect
          (next.1, .executed { step := steps, pc := pc.toWord, word, instr, effect } :: next.2)

/-- A run that is over stays as it is and reports nothing. -/
theorem step_of_not_running {engine : Engine} (stopped : engine.status ≠ .running) :
    engine.step = (engine, []) := by
  unfold step
  split
  · rfl
  · rfl
  · next running => exact absurd running stopped

end Engine

end Asm16
