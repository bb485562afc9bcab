/-
**Only a jump back makes a run long.**

Nothing limits the number of steps of a run without a budget. As long as it takes no jump to its own
or to an earlier address, the end of memory does:

* `OnlyForward` — every taken jump among the executed instructions leads to a later address.
* `Engine.Transition.pc_lt` — a step without a jump back moves the program counter up, whatever it
  executes, and thus also when the program has overwritten itself.
* `Engine.pc_add_le` — so does a run, by at least one address with each step.
* `Engine.short_of_onlyForward` — a run goes on for no more steps than there are addresses after its
  first one, and without a budget it then comes to an end.
-/

import Asm16.Proofs.Engine.Lifetime
import Asm16.Proofs.Engine.Replay

namespace Asm16

/-- Where a taken jump leads. -/
def Effect.target? : Effect → Option Word
  | jump target => some target
  | _ => none

/-- Every taken jump among the executed instructions leads to a later address than its own. -/
def OnlyForward (notices : List Notice) : Prop :=
  ∀ event ∈ instructionEvents notices, ∀ target ∈ event.effect.target?,
    event.pc.toNat < target.toNat

instance (notices : List Notice) : Decidable (OnlyForward notices) :=
  @List.decidableBAll _ _ (fun event => event.effect.target?.decidableForallMem) _

theorem onlyForward_append {notices others : List Notice} :
    OnlyForward (notices ++ others) ↔ OnlyForward notices ∧ OnlyForward others := by
  unfold OnlyForward
  rw [instructionEvents_append]
  exact List.forall_mem_append

namespace Engine

variable {engine after : Engine} {notices : List Notice} {count : Nat}

/-- A step after which the run goes on leads to a later address, unless it jumps back. -/
theorem Transition.pc_lt (transition : Transition engine after notices)
    (goesOn : after.status = .running) (forward : OnlyForward notices) :
    engine.machine.pc.val < after.machine.pc.val := by
  cases transition with
  | refuse => cases goesOn
  | halt => cases goesOn
  | overflow => cases goesOn
  | jump executes =>
    obtain ⟨address, rfl, rfl⟩ := Machine.changes_of_execute executes.executed
    have later := forward _ List.mem_cons_self _ rfl
    rwa [event, Address.toNat_toWord, Address.toNat_toWord] at later
  | pass executes passes following =>
    have kept := (Machine.changes_of_execute executes.executed).pc_of_passes passes
    rw [kept] at following
    exact Nat.lt_of_lt_of_eq (Nat.lt_succ_self _) following.symm

/-- A run that goes on without a jump back has come at least one address further with each step. -/
theorem pc_add_le (running : (engine.after count).status = .running)
    (forward : OnlyForward (engine.reports count)) :
    engine.machine.pc.val + count ≤ (engine.after count).machine.pc.val := by
  induction count with
  | zero => exact Nat.le_refl _
  | succ count ih =>
    have before := running_of_le running (Nat.le_succ count)
    rw [reports_succ, onlyForward_append] at forward
    rw [after_succ] at running ⊢
    have further := (transition_step before).pc_lt running forward.2
    have reached := ih before forward.1
    omega

/-- A run that is over has reported all the jumps that it ever takes. -/
theorem onlyForward_of_stopped (stopped : (engine.after count).status ≠ .running)
    (forward : OnlyForward (engine.reports count)) (later : Nat) :
    OnlyForward (engine.reports later) := by
  rcases Nat.le_total later count with before | past
  · obtain ⟨rest, rfl⟩ := Nat.exists_eq_add_of_le before
    rw [reports_add, onlyForward_append] at forward
    exact forward.1
  · obtain ⟨rest, rfl⟩ := Nat.exists_eq_add_of_le past
    rwa [reports_add, reports_of_not_running stopped, List.append_nil]

/-- A run without a jump back is over when it has made a step for each address from its first one
on. -/
theorem stopped_of_onlyForward
    (forward : OnlyForward (engine.reports (4096 - engine.machine.pc.val))) :
    (engine.after (4096 - engine.machine.pc.val)).status ≠ .running := by
  intro running
  have reached := pc_add_le running forward
  have inMemory := (engine.after (4096 - engine.machine.pc.val)).machine.pc.isLt
  omega

/-- A run that is over has halted or faulted. -/
theorem halted_or_faulted (stopped : engine.status ≠ .running) :
    engine.status = .halted ∨ ∃ fault, engine.status = .faulted fault := by
  cases status : engine.status with
  | running => exact absurd status stopped
  | halted => exact .inl rfl
  | faulted fault => exact .inr ⟨fault, rfl⟩

/-- **Only a jump back makes a run long.** As long as all the jumps taken lead to later addresses, a
run goes on for no more steps than there are addresses after its first one. Without a budget, a run
that takes no other jump is over with one more step, and who follows it gets to its end. -/
theorem short_of_onlyForward :
    (∀ (engine : Engine) (count : Nat), (engine.after count).status = .running →
      OnlyForward (engine.reports count) → count ≤ 4095 - engine.machine.pc.val) ∧
    ∀ engine : Engine, engine.budget = none → (∀ count, OnlyForward (engine.reports count)) →
      ∃ count ≤ 4096 - engine.machine.pc.val,
        ((engine.after count).status = .halted ∨
          ∃ fault, (engine.after count).status = .faulted fault) ∧
        engine.RunsTo (engine.after count) (engine.reports count) := by
  constructor
  · intro engine count running forward
    have reached := pc_add_le running forward
    have inMemory := (engine.after count).machine.pc.isLt
    omega
  · intro engine unlimited forward
    have stopped := stopped_of_onlyForward (forward (4096 - engine.machine.pc.val))
    have enough : 4096 - engine.machine.pc.val ≤ engine.stepLimit := by
      rw [stepLimit_of_unlimited unlimited]
      exact (Nat.sub_le _ _).trans (by decide)
    exact ⟨_, Nat.le_refl _, halted_or_faulted stopped, runsTo_of_stopped stopped enough⟩

/-- A program overwrites the jump back in its last cell before it jumps there. The run goes on for
two steps and faults with the third one. -/
theorem short_of_overwritten_jump :
    let program := ((Machine.fresh.setCell 0 0x2003).setCell 1 0x8003).setCell 3 0x8000
    let engine := ofMachine program none
    ((engine.after 2).status = .running ∧ OnlyForward (engine.reports 2) ∧
        2 ≤ 4095 - engine.machine.pc.val) ∧
      engine.budget = none ∧ (∀ count, OnlyForward (engine.reports count)) ∧
      ∃ count ≤ 4096 - engine.machine.pc.val,
        ((engine.after count).status = .halted ∨
          ∃ fault, (engine.after count).status = .faulted fault) ∧
        engine.RunsTo (engine.after count) (engine.reports count) := by
  intro program engine
  obtain ⟨bounded, ends⟩ := short_of_onlyForward
  have running : (engine.after 2).status = .running := by decide +kernel
  have stopped : (engine.after 3).status ≠ .running := by decide +kernel
  have forward : OnlyForward (engine.reports 3) := by decide +kernel
  have never := onlyForward_of_stopped stopped forward
  exact ⟨⟨running, never 2, bounded engine 2 running (never 2)⟩, rfl, never, ends engine rfl never⟩

end Engine

end Asm16
