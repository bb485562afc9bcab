/-
**How runs start, and where they get.**

* `Origin` — a run starts with a program in a fresh machine or with a prepared machine.
* `Engine.Reaches` — the engines that steps and runs bring about, in any order and number.
* `Engine.run_invariant`, `Engine.Reaches.invariant` — what every step of a running engine keeps
  holds after any number of steps, and in every engine that is reached.
-/

import Asm16.Proofs.Engine.Transition

namespace Asm16

namespace Machine

theorem exists_load (machine : Machine) {words : List Word} (fits : words.length ≤ 4096) :
    ∃ loaded, machine.load words = .ok () loaded :=
  ⟨_, if_pos fits⟩

theorem load_of_lt (machine : Machine) {words : List Word} (large : 4096 < words.length) :
    machine.load words = .error (.programTooLarge words.length) machine :=
  if_neg (Nat.not_le_of_lt large)

/-- A loaded program begins at address zero, and what it does not cover is as it was. -/
theorem cell_of_load {machine loaded : Machine} {words : List Word}
    (load : machine.load words = .ok () loaded) (address : Address) :
    loaded.cell address = words[address.val]?.getD (machine.cell address) := by
  unfold Machine.load at load
  split at load
  · obtain ⟨-, rfl⟩ := EStateM.Result.ok.inj load
    simp [cell]
  · cases load

/-- Loading a program changes memory only. -/
theorem keeps_of_load {machine loaded : Machine} {words : List Word}
    (load : machine.load words = .ok () loaded) :
    loaded.pc = machine.pc ∧ loaded.registers = machine.registers := by
  unfold Machine.load at load
  split at load
  · obtain ⟨-, rfl⟩ := EStateM.Result.ok.inj load
    exact ⟨rfl, rfl⟩
  · cases load

end Machine

/-- A program that fits in memory starts in a fresh machine into which it has been loaded. -/
theorem Engine.exists_new_eq_ofMachine {words : List Word} (fits : words.length ≤ 4096) :
    ∃ loaded, Machine.fresh.load words = .ok () loaded ∧
      ∀ budget, Engine.new words budget = .ofMachine loaded budget := by
  obtain ⟨loaded, load⟩ := Machine.exists_load .fresh fits
  refine ⟨loaded, load, fun budget => ?_⟩
  rw [Engine.new, load]

/-- Zeros follow a program at the start. -/
theorem Engine.cell_new {words : List Word} (fits : words.length ≤ 4096) (budget : Option Nat)
    (address : Address) :
    (Engine.new words budget).machine.cell address = words[address.val]?.getD 0 := by
  obtain ⟨loaded, load, start⟩ := Engine.exists_new_eq_ofMachine fits
  rw [start]
  exact (Machine.cell_of_load load address).trans (by rw [Machine.cell_fresh])

/-- How a run starts: with a program in a fresh machine, or with a prepared machine. -/
inductive Origin
  | program (words : List Word)
  | machine (machine : Machine)

namespace Origin

/-- The engine at the start of a run. -/
def engine (budget : Option Nat) : Origin → Engine
  | program words => .new words budget
  | machine prepared => .ofMachine prepared budget

/-- The origins from which a run can start: a program has to fit in memory. -/
def Fits : Origin → Prop
  | program words => words.length ≤ 4096
  | machine _ => True

theorem exists_engine_eq_ofMachine {origin : Origin} (fits : origin.Fits) (budget : Option Nat) :
    ∃ machine, origin.engine budget = .ofMachine machine budget := by
  cases origin with
  | program words =>
    obtain ⟨loaded, -, start⟩ := Engine.exists_new_eq_ofMachine fits
    exact ⟨loaded, start budget⟩
  | machine prepared => exact ⟨prepared, rfl⟩

/-- A program that does not fit has faulted at the start, in a fresh machine. -/
theorem engine_program_of_lt {words : List Word} (large : 4096 < words.length)
    (budget : Option Nat) : (program words).engine budget =
      { Engine.ofMachine .fresh budget with
        status := .faulted (.access (.programTooLarge words.length)) } := by
  show Engine.new words budget = _
  rw [Engine.new, Machine.load_of_lt .fresh large]

end Origin

namespace Engine

theorem after_succ (engine : Engine) (count : Nat) :
    engine.after (count + 1) = (engine.after count).step.1 :=
  after_add engine count 1

theorem reports_succ (engine : Engine) (count : Nat) :
    engine.reports (count + 1) = engine.reports count ++ (engine.after count).step.2 := by
  rw [reports_add]
  exact congrArg _ (List.append_nil _)

/-- The engines that steps and runs bring about. -/
inductive Reaches (start : Engine) : Engine → Prop
  | start : Reaches start start
  | step {engine : Engine} (reached : Reaches start engine) : Reaches start engine.step.1
  | run {engine final : Engine} {σ : Type} {observe : σ → Notice → σ} {seen last : σ}
      (reached : Reaches start engine) (ended : engine.run observe seen = some (final, last)) :
      Reaches start final

theorem Reaches.after {start engine : Engine} (reached : Reaches start engine) (count : Nat) :
    Reaches start (engine.after count) := by
  induction count with
  | zero => exact reached
  | succ count ih =>
    rw [after_succ]
    exact ih.step

theorem Reaches.exists_after {start engine : Engine} (reached : Reaches start engine) :
    ∃ count, engine = start.after count := by
  induction reached with
  | start => exact ⟨0, rfl⟩
  | step reached ih =>
    obtain ⟨count, rfl⟩ := ih
    exact ⟨count + 1, (after_succ start count).symm⟩
  | run reached ended ih =>
    obtain ⟨count, rfl⟩ := ih
    obtain ⟨further, -, final, -, -⟩ := exists_after_of_follow _ _ _ _ _ _ ended
    exact ⟨count + further, by rw [final, after_add]⟩

variable {start : Engine}

/-- What each step of a running engine keeps of the engine and of what it has reported so far holds
after any number of steps. -/
theorem run_invariant {P : Engine → List Notice → Prop} (initial : P start [])
    (kept : ∀ {engine seen next notices}, P engine seen → engine.status = .running →
      Transition engine next notices → P next (seen ++ notices)) (count : Nat) :
    P (start.after count) (start.reports count) := by
  induction count with
  | zero => exact initial
  | succ count ih =>
    rw [after_succ, reports_succ]
    by_cases running : (start.after count).status = .running
    · exact kept ih running (transition_step running)
    · rw [step_of_not_running running, List.append_nil]
      exact ih

/-- What each step of a running engine keeps holds in every engine that is reached. -/
theorem Reaches.invariant {P : Engine → Prop} (initial : P start)
    (kept : ∀ {engine next notices}, P engine → engine.status = .running →
      Transition engine next notices → P next) {engine : Engine} (reached : Reaches start engine) :
    P engine := by
  obtain ⟨count, rfl⟩ := reached.exists_after
  exact run_invariant (P := fun engine _ => P engine) initial kept count

end Engine

end Asm16
