/-
**A run can be cut and resumed.**

* `Status.extended`, `Engine.Continues` — how a run in one go is put together from a run that its
  budget has cut off and from the run of the machine that this has left.
* `Engine.after_cutOff` — while neither budget is spent, the second run is the first one continued.
* `Engine.Watched.Call` — what can be done with an engine: a step, a run, and another observer.
* `Engine.EndsWith` — a single run ends with a given engine.
* `Engine.continues_and_endsWith` — a run that is cut off and resumed is the run in one go, and
  calls in any order that bring a run to its end bring it to the end of a single run.
-/

import Asm16.Proofs.Engine.Budget
import Asm16.Proofs.Engine.Ending
import Mathlib.Logic.Relation

namespace Asm16

/-- Where a run stands if its budget had been larger: the same, but for the size of the budget. -/
def Status.extended (extra : Nat) : Status → Status
  | faulted (.stepBudgetExceeded budget) => faulted (.stepBudgetExceeded (extra + budget))
  | status => status

namespace Engine

/-! ### Resuming a run that was cut off -/

/-- A run in one go is a run that was cut off after as many instructions as its budget allows,
continued by a second run that counts its instructions anew. -/
structure Continues (budget : Nat) (first second whole : Engine)
    (notices others all : List Notice) : Prop where
  machine : whole.machine = second.machine
  status : whole.status = second.status.extended budget
  steps : whole.steps = first.steps + second.steps
  events : instructionEvents all = instructionEvents notices ++
    (instructionEvents others).map fun event => { event with step := budget + event.step }

theorem instructionEvents_delayed (extra : Nat) (notices : List Notice) :
    instructionEvents (notices.map (.delayed extra)) =
      (instructionEvents notices).map fun event => { event with step := extra + event.step } := by
  unfold instructionEvents
  rw [List.filterMap_map, List.map_filterMap]
  refine List.filterMap_congr fun notice _ => ?_
  cases notice with
  | executed event =>
    show some { event with step := event.step + extra } = some { event with step := _ }
    rw [Nat.add_comm]
  | faulted => rfl

/-- Where a run with a budget ends that the run without one reaches with the given status. -/
def cutStatus (limit : Nat) (status : Status) : Status :=
  if status = .running then .faulted (.stepBudgetExceeded limit) else status

/-- The end of a run with a budget is where the run without one stands by then. -/
theorem after_limit_succ (machine : Machine) (limit : Nat) :
    (ofMachine machine (some limit)).after (limit + 1) =
      { (ofMachine machine none).after limit with
        budget := some limit
        status := cutStatus limit ((ofMachine machine none).after limit).status } := by
  rw [after_succ]
  unfold cutStatus
  by_cases running : ((ofMachine machine none).after limit).status = .running
  · rw [step_after_limit running, if_pos running]
    rfl
  · rw [step_after_limit_of_stopped running, if_neg running]
    rfl

theorem status_ne_stepBudgetExceeded (machine : Machine) (count limit : Nat) :
    ((ofMachine machine none).after count).status ≠ .faulted (.stepBudgetExceeded limit) := by
  intro exceeded
  cases ((sound_after (.machine machine) none count).budgetExceeded limit exceeded).1

/-- Only a run that goes on without a budget is cut off by one, and by no other one. -/
theorem cutStatus_eq_stepBudgetExceeded {machine : Machine} {limit count reported : Nat}
    (exceeded : cutStatus limit ((ofMachine machine none).after count).status =
      .faulted (.stepBudgetExceeded reported)) :
    ((ofMachine machine none).after count).status = .running := by
  unfold cutStatus at exceeded
  by_contra stopped
  rw [if_neg stopped] at exceeded
  exact status_ne_stepBudgetExceeded machine count reported exceeded

theorem cutStatus_add {machine : Machine} {budget further count : Nat} :
    cutStatus (budget + further) ((ofMachine machine none).after count).status =
      (cutStatus further ((ofMachine machine none).after count).status).extended budget := by
  have unlimited := status_ne_stepBudgetExceeded machine count
  unfold cutStatus
  cases standing : ((ofMachine machine none).after count).status with
  | running => rfl
  | halted => rfl
  | faulted fault =>
    cases fault with
    | stepBudgetExceeded limit => exact absurd standing (unlimited limit)
    | _ => rfl

/-- A run that goes on after as many steps as a budget allows is the run of the machine it has
reached by then, with more instructions counted. -/
theorem after_cutOff {machine : Machine} {budget : Nat}
    (running : ((ofMachine machine none).after budget).status = .running) (count : Nat) :
    (ofMachine machine none).after (budget + count) =
        ((ofMachine ((ofMachine machine none).after budget).machine none).after count).rebased
          budget none ∧
      (ofMachine machine none).reports (budget + count) =
        (ofMachine machine none).reports budget ++
          ((ofMachine ((ofMachine machine none).after budget).machine none).reports count).map
            (.delayed budget) := by
  have standing : (ofMachine machine none).after budget =
      (ofMachine ((ofMachine machine none).after budget).machine none).rebased budget none := by
    have steps := steps_of_running running
    have unlimited := budget_after (ofMachine machine none) budget
    generalize (ofMachine machine none).after budget = reached at *
    obtain ⟨machine, status, limit, counted⟩ := reached
    cases running
    cases unlimited
    cases steps
    rfl
  obtain ⟨after, reports⟩ := @after_rebased
    (ofMachine ((ofMachine machine none).after budget).machine none) budget none count nofun nofun
  rw [after_add, reports_add, ← after, ← reports, ← standing]
  exact ⟨rfl, rfl⟩

/-- A run that its budget has cut off, and then the run of the machine it has left with another
budget, are the run with both budgets together. -/
theorem continues_of_cut {machine : Machine} {budget limit : Nat} {first : Engine}
    {notices : List Notice} (ends : (ofMachine machine (some budget)).RunsTo first notices)
    (cut : first.status = .faulted (.stepBudgetExceeded limit)) (further : Nat) :
    ∃ second others whole all, (ofMachine first.machine (some further)).RunsTo second others ∧
      (ofMachine machine (some (budget + further))).RunsTo whole all ∧
      Continues budget first second whole notices others all := by
  obtain ⟨rfl, rfl⟩ := ends.unique (runsTo_ofMachine_some machine budget)
  rw [after_limit_succ] at cut ⊢
  have running := cutStatus_eq_stepBudgetExceeded cut
  obtain ⟨after, reports⟩ := after_cutOff running further
  refine ⟨_, _, _, _, runsTo_ofMachine_some _ further, runsTo_ofMachine_some _ _, ?_⟩
  rw [after_limit_succ, after_limit_succ, after]
  refine ⟨rfl, cutStatus_add, ?_, ?_⟩
  · have steps : ((ofMachine machine none).after budget).steps = budget :=
      (steps_of_running running).trans (Nat.zero_add budget)
    show _ + budget = ((ofMachine machine none).after budget).steps + _
    rw [steps, Nat.add_comm]
  · rw [instructionEvents_ofMachine_some, instructionEvents_ofMachine_some,
      instructionEvents_ofMachine_some, reports, instructionEvents_append,
      instructionEvents_delayed]

/-! ### Calls in any order -/

/-- An engine, an observer of its notices and what that has seen. -/
structure Watched where
  {Seen : Type}
  engine : Engine
  observe : Seen → Notice → Seen
  seen : Seen

/-- What can be done with a watched engine: a step, a run to its end, and to give it another
observer. -/
inductive Watched.Call : Watched → Watched → Prop
  | step (watched : Watched) : Call watched { watched with
      engine := watched.engine.step.1
      seen := watched.engine.step.2.foldl watched.observe watched.seen }
  | run {watched : Watched} {final : Engine} {last : watched.Seen}
      (ended : watched.engine.run watched.observe watched.seen = some (final, last)) :
      Call watched { watched with engine := final, seen := last }
  | watch (watched : Watched) {Seen : Type} (observe : Seen → Notice → Seen) (seen : Seen) :
      Call watched ⟨watched.engine, observe, seen⟩

theorem reaches_of_calls {start last : Watched}
    (calls : Relation.ReflTransGen Watched.Call start last) :
    Reaches start.engine last.engine := by
  induction calls with
  | refl => exact .start
  | tail _ call ih =>
    cases call with
    | step => exact ih.step
    | run ended => exact ih.run ended
    | watch => exact ih

/-- A single run ends with an engine: whoever follows it for long enough gets there, it is the only
end of the run, and the run gets there by itself unless it has no budget and is given up because
its steps no longer count in 64 bits. -/
structure EndsWith (start final : Engine) : Prop where
  follows : ∃ (limit : Nat) (notices : List Notice), ∀ {σ : Type} (observe : σ → Notice → σ)
    (seen : σ), follow observe limit start seen = some (final, notices.foldl observe seen)
  runs : (start.budget = none → final.steps < Numeral.largest64) →
    ∃ notices, start.RunsTo final notices
  only : ∀ {last notices}, start.RunsTo last notices → last = final

variable {engine : Engine} {count : Nat}

/-- A run goes on only after a step with which its budget was not spent yet. -/
theorem Transition.unspent {next : Engine} {notices : List Notice}
    (transition : Transition engine next notices) (running : next.status = .running) :
    ∀ limit ∈ engine.budget, engine.steps < limit := by
  cases transition with
  | refuse => cases running
  | halt => cases running
  | overflow => cases running
  | jump executes => exact executes.unspent
  | pass executes => exact executes.unspent

/-- A run with a budget is over within its limit of steps. -/
theorem stopped_after_stepLimit {budget : Nat} (limited : engine.budget = some budget) :
    (engine.after engine.stepLimit).status ≠ .running := by
  have limit : engine.stepLimit = budget - engine.steps + 1 := by
    unfold stepLimit
    rw [limited]
  rw [limit]
  intro running
  have before := running_of_le running (Nat.le_succ _)
  rw [after_succ] at running
  have unspent := (transition_step before).unspent running budget
    ((budget_after _ _).trans limited)
  rw [steps_of_running before] at unspent
  omega

/-- A run that is over has made at most one step more than it has executed instructions. -/
theorem exists_stopped_le (stopped : (engine.after count).status ≠ .running) :
    ∃ first ≤ (engine.after count).steps + 1, (engine.after first).status ≠ .running := by
  induction count with
  | zero => exact ⟨0, Nat.zero_le _, stopped⟩
  | succ count ih =>
    by_cases running : (engine.after count).status = .running
    · refine ⟨count + 1, Nat.succ_le_succ ?_, stopped⟩
      have counted := steps_of_running running
      have step := (transition_step running).steps_le
      rw [after_succ]
      omega
    · rw [after_of_stopped running (Nat.le_succ count)]
      exact ih running

/-- A run that is over after some number of steps is the end of a single run. -/
theorem endsWith_after (stopped : (engine.after count).status ≠ .running) :
    EndsWith engine (engine.after count) := by
  have same {other : Nat} (ended : (engine.after other).status ≠ .running) :
      engine.after other = engine.after count := by
    rw [← after_of_stopped ended (Nat.le_max_left other count),
      after_of_stopped stopped (Nat.le_max_right other count)]
  have runsTo {other : Nat} (ended : (engine.after other).status ≠ .running)
      (le : other ≤ engine.stepLimit) : ∃ notices, engine.RunsTo (engine.after count) notices := by
    rw [← same ended]
    exact ⟨_, runsTo_of_stopped ended le⟩
  refine ⟨⟨count, engine.reports count, fun observe seen =>
    follow_of_stopped observe seen stopped (Nat.le_refl count)⟩, fun counts => ?_, ?_⟩
  · cases limited : engine.budget with
    | some budget => exact runsTo (stopped_after_stepLimit limited) (Nat.le_refl _)
    | none =>
      obtain ⟨first, le, ended⟩ := exists_stopped_le stopped
      have limit := stepLimit_of_unlimited limited
      exact runsTo ended (limit ▸ le.trans (counts limited))
  · intro last notices ends
    obtain ⟨other, -, rfl, -, ended⟩ := exists_after_of_follow _ _ _ _ _ _
      (ends (fun seen _ => seen) ())
    exact same ended

/-- **A run can be cut and resumed**, and it ends in the same way however it is brought to its end:
by steps, by runs, and before whichever observers. -/
theorem continues_and_endsWith :
    (∀ (machine : Machine) (budget further limit : Nat) (first : Engine) (notices : List Notice),
      (ofMachine machine (some budget)).RunsTo first notices →
      first.status = .faulted (.stepBudgetExceeded limit) →
      ∃ second others whole all, (ofMachine first.machine (some further)).RunsTo second others ∧
        (ofMachine machine (some (budget + further))).RunsTo whole all ∧
        Continues budget first second whole notices others all) ∧
      ∀ start last : Watched, Relation.ReflTransGen Watched.Call start last →
        last.engine.status ≠ .running → EndsWith start.engine last.engine := by
  refine ⟨fun machine budget further limit first notices ends cut =>
    continues_of_cut ends cut further, fun start last calls stopped => ?_⟩
  obtain ⟨count, same⟩ := (reaches_of_calls calls).exists_after
  rw [same] at stopped ⊢
  exact endsWith_after stopped

/-- A program that is cut off after one instruction and resumed halts as it does in one go, and so
it does when it is stepped before one observer and run before another one. -/
theorem continues_after_first_instruction :
    let machine := (Machine.fresh.setCell 0 0x1105).setCell 1 0xF000
    let first := (ofMachine machine (some 1)).after 2
    let start : Watched := ⟨ofMachine machine none, fun count _ => count + 1, 0⟩
    first.status = .faulted (.stepBudgetExceeded 1) ∧
      (∃ second others whole all, (ofMachine first.machine (some 4)).RunsTo second others ∧
        (ofMachine machine (some 5)).RunsTo whole all ∧
        Continues 1 first second whole ((ofMachine machine (some 1)).reports 2) others all) ∧
      EndsWith start.engine (start.engine.after 2) := by
  intro machine first start
  obtain ⟨resumed, alike⟩ := continues_and_endsWith
  have cut : first.status = .faulted (.stepBudgetExceeded 1) := by decide +kernel
  have stopped : (start.engine.step.1.after 1).status ≠ .running := by decide +kernel
  have ended := runsTo_of_stopped stopped (by decide) (fun seen notice => seen ++ [notice]) []
  have stepped := Relation.ReflTransGen.single (Watched.Call.step start)
  have calls := (stepped.tail (.watch _ (fun seen notice => seen ++ [notice]) [])).tail (.run ended)
  exact ⟨cut, resumed machine 1 4 1 first _ (runsTo_ofMachine_some machine 1) cut,
    alike start _ calls stopped⟩

end Engine

end Asm16
