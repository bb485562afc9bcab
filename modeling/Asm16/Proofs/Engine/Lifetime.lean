/-
**How long a run lasts.**

* `Engine.lifetime` — the number of steps after which a run is over, infinite if it never is.
* `Engine.RunsTo` — following a run to its end leads to a given engine and hands every observer
  given notices; `Engine.runsTo_of_stopped` says that the steps of the run are followed.
* `Engine.steps_of_running` — while a run goes on, each of its steps executes one instruction.
-/

import Asm16.Proofs.Engine.Origin
import Mathlib.Data.ENat.Lattice

namespace Asm16

namespace Engine

variable {engine : Engine} {count : Nat}

/-! ### Steps after the end -/

theorem reports_of_not_running (stopped : engine.status ≠ .running) (count : Nat) :
    engine.reports count = [] := by
  induction count with
  | zero => rfl
  | succ count ih => rw [reports, step_of_not_running stopped, ih, List.nil_append]

theorem after_of_stopped (stopped : (engine.after count).status ≠ .running) {later : Nat}
    (le : count ≤ later) : engine.after later = engine.after count := by
  obtain ⟨further, rfl⟩ := Nat.exists_eq_add_of_le le
  rw [after_add, after_of_not_running stopped]

theorem running_of_le {later : Nat} (running : (engine.after later).status = .running)
    (le : count ≤ later) : (engine.after count).status = .running := by
  by_contra stopped
  rw [after_of_stopped stopped le] at running
  exact stopped running

/-! ### Lifetimes -/

/-- The number of steps after which a run is over, infinite if it never is. -/
noncomputable def lifetime (engine : Engine) : ℕ∞ :=
  ⨅ (count : ℕ) (_ : (engine.after count).status ≠ .running), (count : ℕ∞)

theorem lifetime_le_iff : engine.lifetime ≤ count ↔ (engine.after count).status ≠ .running := by
  refine ⟨fun le running => ?_, fun stopped => iInf₂_le count stopped⟩
  have later : ((count + 1 : ℕ) : ℕ∞) ≤ engine.lifetime := by
    refine le_iInf₂ fun first stopped => Nat.cast_le.mpr ?_
    by_contra early
    exact stopped (running_of_le running (Nat.le_of_lt_succ (Nat.lt_of_not_le early)))
  exact absurd (Nat.cast_le.mp (later.trans le)) (Nat.not_succ_le_self count)

theorem lt_lifetime_iff : count < engine.lifetime ↔ (engine.after count).status = .running := by
  rw [← not_le, lifetime_le_iff, not_not]

/-! ### Runs to their end -/

/-- Following a run to its end leads to an engine and hands every observer the notices, in order. -/
def RunsTo (engine final : Engine) (notices : List Notice) : Prop :=
  ∀ {σ : Type} (observe : σ → Notice → σ) (seen : σ),
    engine.run observe seen = some (final, notices.foldl observe seen)

theorem follow_of_stopped {σ : Type} (observe : σ → Notice → σ) (seen : σ) {limit : Nat}
    (stopped : (engine.after count).status ≠ .running) (le : count ≤ limit) :
    follow observe limit engine seen =
      some (engine.after count, (engine.reports count).foldl observe seen) := by
  induction limit generalizing engine count seen with
  | zero =>
    obtain rfl : count = 0 := Nat.le_zero.mp le
    exact if_neg stopped
  | succ limit ih =>
    unfold follow
    by_cases running : engine.status = .running
    · rw [if_pos running]
      cases count with
      | zero => exact absurd running stopped
      | succ count =>
        rw [reports, List.foldl_append]
        exact ih _ stopped (Nat.le_of_succ_le_succ le)
    · rw [if_neg running, after_of_not_running running, reports_of_not_running running]
      rfl

/-- Without a budget a run is followed for as long as its steps count in 64 bits. -/
theorem stepLimit_of_unlimited (unlimited : engine.budget = none) :
    engine.stepLimit = Numeral.largest64 := by
  unfold stepLimit
  rw [unlimited]

/-- A run that is over within its limit of steps is followed to its end. -/
theorem runsTo_of_stopped (stopped : (engine.after count).status ≠ .running)
    (le : count ≤ engine.stepLimit) : engine.RunsTo (engine.after count) (engine.reports count) :=
  fun observe seen => follow_of_stopped observe seen stopped le

theorem RunsTo.unique {first second : Engine} {notices others : List Notice}
    (one : engine.RunsTo first notices) (two : engine.RunsTo second others) :
    first = second ∧ notices = others := by
  -- The observer that collects what it is handed tells the notices apart.
  have same := (one (fun seen notice => seen ++ [notice]) []).symm.trans (two _ _)
  have collected (notices : List Notice) :
      notices.foldl (fun seen notice => seen ++ [notice]) [] = notices := by
    rw [List.foldl_append_eq_append, List.nil_append]
    exact List.flatMap_pure_eq_map id notices |>.trans (List.map_id notices)
  rw [collected, collected] at same
  exact Prod.mk.inj (Option.some.inj same)

/-! ### Executed instructions -/

/-- A step executes at most one instruction, and exactly one if the run goes on after it. -/
theorem Transition.steps {next : Engine} {notices : List Notice}
    (transition : Transition engine next notices) :
    next.steps ≤ engine.steps + 1 ∧ (next.status = .running → next.steps = engine.steps + 1) := by
  cases transition with
  | refuse => exact ⟨Nat.le_succ _, nofun⟩
  | halt => exact ⟨Nat.le_refl _, nofun⟩
  | jump => exact ⟨Nat.le_refl _, fun _ => rfl⟩
  | pass => exact ⟨Nat.le_refl _, fun _ => rfl⟩
  | overflow => exact ⟨Nat.le_refl _, nofun⟩

theorem Transition.steps_le {next : Engine} {notices : List Notice}
    (transition : Transition engine next notices) : engine.steps ≤ next.steps := by
  cases transition with
  | refuse => exact Nat.le_refl _
  | _ => exact Nat.le_succ _

theorem Transition.budget {next : Engine} {notices : List Notice}
    (transition : Transition engine next notices) : next.budget = engine.budget := by
  cases transition <;> rfl

theorem steps_after_le (engine : Engine) (count : Nat) :
    (engine.after count).steps ≤ engine.steps + count := by
  induction count with
  | zero => exact Nat.le_refl _
  | succ count ih =>
    rw [after_succ]
    by_cases running : (engine.after count).status = .running
    · have step := (transition_step running).steps.1
      omega
    · rw [step_of_not_running running]
      exact Nat.le_succ_of_le ih

theorem budget_after (engine : Engine) (count : Nat) :
    (engine.after count).budget = engine.budget := by
  induction count with
  | zero => rfl
  | succ count ih =>
    rw [after_succ]
    by_cases running : (engine.after count).status = .running
    · rw [(transition_step running).budget, ih]
    · rw [step_of_not_running running, ih]

/-- While a run goes on, each of its steps executes one instruction. -/
theorem steps_of_running (running : (engine.after count).status = .running) :
    (engine.after count).steps = engine.steps + count := by
  induction count with
  | zero => rfl
  | succ count ih =>
    have before := running_of_le running (Nat.le_succ count)
    rw [after_succ] at running ⊢
    rw [(transition_step before).steps.2 running, ih before, Nat.add_assoc]

/-- A program that begins with a `HALT` is over after one step, unless its budget is zero. -/
theorem halted_after_one {word : Word} {words : List Word} {budget : Option Nat}
    (fits : (word :: words).length ≤ 4096) (decoded : Instr.decode word = .ok .halt)
    (positive : ∀ limit ∈ budget, 0 < limit) :
    ((Engine.new (word :: words) budget).after 1).status = .halted := by
  obtain ⟨machine, load, start⟩ := exists_new_eq_ofMachine fits
  have pc : machine.pc = 0 := (Machine.keeps_of_load load).1
  have cell : machine.cell machine.pc = word := by
    rw [Machine.cell_of_load load, pc]
    rfl
  have executes : (ofMachine machine budget).Executes .halt machine .halt :=
    ⟨positive, (congrArg Instr.decode cell).trans decoded, rfl⟩
  show (Engine.new (word :: words) budget).step.1.status = _
  rw [start, step_of_executes rfl executes rfl]
  rfl

end Engine

end Asm16
