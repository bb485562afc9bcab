/-
**A budget only cuts a run off.**

* `Engine.rebased` — the same engine with more instructions counted and with another budget;
  `Engine.step_rebased` says that neither matters to a step unless a budget is spent.
* `Engine.CutOff` — a run within a budget is the run without one if that is over by then, and
  otherwise stops where that stands after as many steps as the budget allows.
* `Engine.cutOff_ofMachine` — this is so for every machine and every budget.
-/

import Asm16.Proofs.Engine.Lifetime
import Asm16.Proofs.Engine.Replay

namespace Asm16

/-- A notice of a run that has counted more instructions. -/
def Notice.delayed (extra : Nat) : Notice → Notice
  | executed event => executed { event with step := event.step + extra }
  | faulted pc fault => faulted pc fault

theorem Notice.delayed_zero : delayed 0 = id := by
  funext notice
  cases notice <;> rfl

namespace Engine

variable {engine : Engine} {extra : Nat} {budget : Option Nat}

/-! ### The same run with another count and budget -/

/-- The same engine with more instructions counted, and with another budget. -/
def rebased (engine : Engine) (extra : Nat) (budget : Option Nat) : Engine :=
  { engine with steps := engine.steps + extra, budget }

theorem proceed_rebased (engine : Engine) (extra : Nat) (budget : Option Nat) (effect : Effect) :
    (engine.rebased extra budget).proceed effect =
      ((engine.proceed effect).1.rebased extra budget,
        (engine.proceed effect).2.map (.delayed extra)) := by
  by_cases passes : effect.Passes
  · have machine_rebased : (engine.rebased extra budget).machine = engine.machine := rfl
    rw [proceed_of_passes passes, proceed_of_passes passes, machine_rebased]
    cases engine.machine.advance? <;> rfl
  · cases effect with
    | halt => rfl
    | jump => rfl
    | _ => exact absurd trivial passes

theorem delayed_event (engine : Engine) (extra : Nat) (budget : Option Nat) (instr : Instr)
    (effect : Effect) : (Notice.executed (engine.event instr effect)).delayed extra =
      .executed ((engine.rebased extra budget).event instr effect) :=
  congrArg (fun step => Notice.executed { engine.event instr effect with step })
    (Nat.add_right_comm engine.steps 1 extra)

/-- What a step does depends neither on the count nor on the budget, unless a budget is spent. -/
theorem step_rebased (unspent : ∀ limit ∈ engine.budget, engine.steps < limit)
    (unspent_rebased : ∀ limit ∈ budget, engine.steps + extra < limit) :
    (engine.rebased extra budget).step =
      (engine.step.1.rebased extra budget, engine.step.2.map (.delayed extra)) := by
  by_cases running : engine.status = .running
  · have running_rebased : (engine.rebased extra budget).status = .running := running
    rcases refuses_or_executes engine with ⟨fault, refuses⟩ | ⟨instr, next, effect, executes⟩
    · have refuses_rebased : (engine.rebased extra budget).Refuses fault := by
        cases refuses with
        | spent limit reached => exact absurd (unspent _ limit) (Nat.not_lt_of_le reached)
        | unknown _ decoded => exact .unknown unspent_rebased decoded
        | division _ decoded zero => exact .division unspent_rebased decoded zero
      rw [step_of_refuses running refuses, step_of_refuses running_rebased refuses_rebased]
      rfl
    · have executes_rebased : (engine.rebased extra budget).Executes instr next effect :=
        ⟨unspent_rebased, executes.decoded, executes.executed⟩
      have next_rebased :
          rebased { engine with machine := next, steps := engine.steps + 1 } extra budget =
            { engine.rebased extra budget with
              machine := next, steps := (engine.rebased extra budget).steps + 1 } := by
        unfold rebased
        rw [Nat.add_right_comm]
      rw [step_of_executes running executes rfl,
        step_of_executes running_rebased executes_rebased next_rebased, proceed_rebased,
        ← delayed_event]
      rfl
  · have stopped : (engine.rebased extra budget).status ≠ .running := running
    rw [step_of_not_running running, step_of_not_running stopped]
    rfl

/-- As long as no budget is spent, a run depends neither on the count nor on the budget. -/
theorem after_rebased {count : Nat}
    (unspent : ∀ limit ∈ engine.budget, engine.steps + count ≤ limit)
    (unspent_rebased : ∀ limit ∈ budget, engine.steps + extra + count ≤ limit) :
    (engine.rebased extra budget).after count = (engine.after count).rebased extra budget ∧
      (engine.rebased extra budget).reports count =
        (engine.reports count).map (.delayed extra) := by
  induction count with
  | zero => exact ⟨rfl, rfl⟩
  | succ count ih =>
    obtain ⟨after, reports⟩ := ih (fun limit member => Nat.le_of_succ_le (unspent limit member))
      (fun limit member => Nat.le_of_succ_le (unspent_rebased limit member))
    have bound := steps_after_le engine count
    have step : ((engine.after count).rebased extra budget).step =
        ((engine.after count).step.1.rebased extra budget,
          (engine.after count).step.2.map (.delayed extra)) := by
      refine step_rebased (fun limit member => ?_) (fun limit member => ?_)
      · rw [budget_after] at member
        exact Nat.lt_of_le_of_lt bound (unspent limit member)
      · have room := unspent_rebased limit member
        omega
    rw [after_succ, after_succ, reports_succ, reports_succ, after, reports, step, List.map_append]
    exact ⟨rfl, rfl⟩

/-! ### Runs with and without a budget -/

/-- A run whose budget is spent before it is over: until then it goes on, and the next step faults
where the run without a budget stands. -/
structure Exhausted (free cut : Engine) (limit : Nat) : Prop where
  running : ∀ count ≤ limit, (cut.after count).status = .running
  faulted : cut.after (limit + 1) =
    { free.after limit with budget := some limit, status := .faulted (.stepBudgetExceeded limit) }
  steps : (cut.after (limit + 1)).steps = limit
  ends : cut.RunsTo (cut.after (limit + 1)) (cut.reports (limit + 1))
  length : (instructionEvents (cut.reports (limit + 1))).length = limit
  events : ∀ count ≥ limit, instructionEvents (cut.reports (limit + 1)) =
    (instructionEvents (free.reports count)).take limit

/-- A run within a budget always ends: like the run without a budget if that is over by then, and
otherwise because the budget is spent. -/
structure CutOff (free cut : Engine) (limit : Nat) : Prop where
  terminates : ∃ final notices, cut.RunsTo final notices
  enough : free.lifetime ≤ limit → ∃ final notices, free.RunsTo final notices ∧
    cut.RunsTo { final with budget := some limit } notices
  short : limit < free.lifetime → Exhausted free cut limit

variable {machine : Machine} {limit count : Nat}

/-- Within its budget a run is the run without one. -/
theorem after_ofMachine_some (machine : Machine) (le : count ≤ limit) :
    (ofMachine machine (some limit)).after count =
        ((ofMachine machine none).after count).rebased 0 (some limit) ∧
      (ofMachine machine (some limit)).reports count = (ofMachine machine none).reports count := by
  have unspent : ∀ other ∈ (ofMachine machine none).budget,
      (ofMachine machine none).steps + count ≤ other := by
    rintro _ ⟨⟩
  have unspent_rebased : ∀ other ∈ some limit,
      (ofMachine machine none).steps + 0 + count ≤ other := by
    rintro _ ⟨⟩
    exact (Nat.zero_add count).trans_le le
  obtain ⟨after, reports⟩ := after_rebased unspent unspent_rebased
  rw [Notice.delayed_zero, List.map_id] at reports
  exact ⟨after, reports⟩

theorem step_after_limit (running : ((ofMachine machine none).after limit).status = .running) :
    ((ofMachine machine (some limit)).after limit).step =
      (((ofMachine machine none).after limit).rebased 0 (some limit)).fail
        (.stepBudgetExceeded limit) := by
  have counted : ((ofMachine machine none).after limit).steps = limit :=
    (steps_of_running running).trans (Nat.zero_add limit)
  have spent : (((ofMachine machine none).after limit).rebased 0 (some limit)).Refuses
      (.stepBudgetExceeded limit) := .spent rfl (Nat.le_of_eq counted.symm)
  rw [(after_ofMachine_some machine (Nat.le_refl limit)).1]
  refine step_of_refuses ?_ spent
  exact running

theorem step_after_limit_of_stopped
    (stopped : ((ofMachine machine none).after limit).status ≠ .running) :
    ((ofMachine machine (some limit)).after limit).step =
      (((ofMachine machine none).after limit).rebased 0 (some limit), []) := by
  rw [(after_ofMachine_some machine (Nat.le_refl limit)).1]
  exact step_of_not_running stopped

theorem stopped_after_limit (machine : Machine) (limit : Nat) :
    ((ofMachine machine (some limit)).after (limit + 1)).status ≠ .running := by
  rw [after_succ]
  by_cases running : ((ofMachine machine none).after limit).status = .running
  · rw [step_after_limit running]
    nofun
  · rw [step_after_limit_of_stopped running]
    exact running

theorem runsTo_ofMachine_some (machine : Machine) (limit : Nat) :
    (ofMachine machine (some limit)).RunsTo ((ofMachine machine (some limit)).after (limit + 1))
      ((ofMachine machine (some limit)).reports (limit + 1)) :=
  runsTo_of_stopped (stopped_after_limit machine limit) (Nat.le_refl _)

/-- Within a budget a run executes the instructions that the run without one begins with. -/
theorem instructionEvents_ofMachine_some (machine : Machine) (limit : Nat) :
    instructionEvents ((ofMachine machine (some limit)).reports (limit + 1)) =
      instructionEvents ((ofMachine machine none).reports limit) := by
  rw [reports_succ, (after_ofMachine_some machine (Nat.le_refl limit)).2]
  by_cases running : ((ofMachine machine none).after limit).status = .running
  · rw [step_after_limit running]
    rw [instructionEvents_append]
    exact List.append_nil _
  · rw [step_after_limit_of_stopped running, List.append_nil]

theorem instructionEvents_prefix_of_le (engine : Engine) {less more : Nat} (le : less ≤ more) :
    instructionEvents (engine.reports less) <+: instructionEvents (engine.reports more) := by
  obtain ⟨further, rfl⟩ := Nat.exists_eq_add_of_le le
  rw [reports_add]
  exact (List.prefix_append _ _).filterMap _

theorem length_instructionEvents (machine : Machine) (budget : Option Nat) (count : Nat) :
    (instructionEvents ((ofMachine machine budget).reports count)).length =
      ((ofMachine machine budget).after count).steps := by
  have recorded := recorded_after machine budget count
  have numbered := congrArg List.length recorded.numbered
  rwa [List.length_map, List.length_range'] at numbered

/-- A run that is over before its budget is spent ends like the run without one. -/
theorem exists_runsTo_of_stopped
    (stopped : ((ofMachine machine none).after limit).status ≠ .running) (counts : limit < 2 ^ 64) :
    ∃ final notices, (ofMachine machine none).RunsTo final notices ∧
      (ofMachine machine (some limit)).RunsTo { final with budget := some limit } notices := by
  have bound : limit ≤ (ofMachine machine none).stepLimit := by
    show limit ≤ Numeral.largest64
    unfold Numeral.largest64
    omega
  refine ⟨_, _, runsTo_of_stopped stopped bound, ?_⟩
  obtain ⟨after, reports⟩ := after_ofMachine_some machine (Nat.le_refl limit)
  rw [← reports]
  show RunsTo _ (rebased _ 0 (some limit)) _
  rw [← after]
  refine runsTo_of_stopped ?_ (Nat.le_succ _)
  rw [after]
  exact stopped

theorem exhausted_of_running (running : ((ofMachine machine none).after limit).status = .running) :
    Exhausted (ofMachine machine none) (ofMachine machine (some limit)) limit := by
  have steps : ((ofMachine machine none).after limit).steps = limit :=
    (steps_of_running running).trans (Nat.zero_add limit)
  have faulted := after_succ (ofMachine machine (some limit)) limit
  rw [step_after_limit running] at faulted
  have events := instructionEvents_ofMachine_some machine limit
  have length := length_instructionEvents machine none limit
  rw [steps] at length
  refine ⟨fun count le => ?_, faulted, ?_, runsTo_ofMachine_some machine limit, ?_, ?_⟩
  · rw [(after_ofMachine_some machine le).1]
    exact running_of_le running le
  · rw [faulted]
    exact steps
  · rw [events, length]
  · intro count le
    rw [events]
    conv_rhs => rw [← length]
    exact List.prefix_iff_eq_take.mp (instructionEvents_prefix_of_le _ le)

/-- **A budget only cuts a run off**, and a smaller budget does so earlier. -/
theorem cutOff_ofMachine (machine : Machine) (budget : UInt64) :
    CutOff (ofMachine machine none) (ofMachine machine (some budget.toNat)) budget.toNat ∧
      ∀ larger : UInt64, budget ≤ larger → ∀ {final last notices others},
        (ofMachine machine (some budget.toNat)).RunsTo final notices →
        (ofMachine machine (some larger.toNat)).RunsTo last others →
        instructionEvents notices <+: instructionEvents others := by
  refine ⟨⟨⟨_, _, runsTo_ofMachine_some machine budget.toNat⟩, fun enough => ?_, fun short => ?_⟩,
    fun larger le final last notices others ends ends_larger => ?_⟩
  · exact exists_runsTo_of_stopped (lifetime_le_iff.mp enough) budget.toNat_lt
  · exact exhausted_of_running (lt_lifetime_iff.mp short)
  · obtain ⟨-, rfl⟩ := ends.unique (runsTo_ofMachine_some machine budget.toNat)
    obtain ⟨-, rfl⟩ := ends_larger.unique (runsTo_ofMachine_some machine larger.toNat)
    rw [instructionEvents_ofMachine_some, instructionEvents_ofMachine_some]
    exact instructionEvents_prefix_of_le _ le

/-- A jump to itself is cut off after two instructions, which are also the first of three. -/
theorem exhausted_jump_to_itself :
    let machine := Machine.fresh.setCell 0 0x8000
    Exhausted (ofMachine machine none) (ofMachine machine (some 2)) 2 ∧
      instructionEvents ((ofMachine machine (some 2)).reports 3) <+:
        instructionEvents ((ofMachine machine (some 3)).reports 4) := by
  intro machine
  obtain ⟨cutOff, nested⟩ := cutOff_ofMachine machine 2
  have running : ((ofMachine machine none).after 2).status = .running := by decide +kernel
  exact ⟨cutOff.short (lt_lifetime_iff.mpr running),
    nested 3 (by decide) (runsTo_ofMachine_some machine 2) (runsTo_ofMachine_some machine 3)⟩

end Engine

end Asm16
