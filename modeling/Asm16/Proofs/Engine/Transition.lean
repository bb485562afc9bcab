/-
**What one step of a run does.**

* `Effect.Changes` — an effect tells how the machine after an instruction differs from the one
  before it; `Effect.changes_of_execute` says that every instruction obeys this.
* `Engine.Refuses`, `Engine.Executes` — why a running engine does not execute an instruction, and
  what it executes otherwise.
* `Engine.Transition` — the five things that a step of a running engine can do.
* `Engine.transition_step` — a step does one of them.
-/

import Asm16.Engine.Run

namespace Asm16

/-! ### Effects -/

namespace Effect

/-- An effect on a machine, with the machine after it. The program counter is the one of the next
instruction only after a jump. -/
def Changes (machine next : Machine) : Effect → Prop
  | register changed before after =>
    machine.register changed = before ∧ next = machine.setRegister changed after
  | memory address before after => ∃ byte, address = (Address.ofByte byte).toWord ∧
    machine.cell (.ofByte byte) = before ∧ next = machine.setCell (.ofByte byte) after
  | jump target =>
    ∃ address, target = Address.toWord address ∧ next = { machine with pc := address }
  | notTaken | halt => next = machine

/-- Whether the run goes on at the next address. -/
def Passes : Effect → Prop
  | jump _ | halt => False
  | _ => True

variable {machine next : Machine} {effect : Effect}

theorem Changes.pc_of_passes (changes : effect.Changes machine next) (passes : effect.Passes) :
    next.pc = machine.pc := by
  cases effect with
  | register =>
    obtain ⟨-, rfl⟩ := changes
    rfl
  | memory =>
    obtain ⟨byte, -, -, rfl⟩ := changes
    rfl
  | notTaken => rw [show next = machine from changes]
  | jump => exact passes.elim
  | halt => exact passes.elim

/-- Only the first 256 memory cells ever change. -/
theorem Changes.cell_of_le (changes : effect.Changes machine next) {address : Address}
    (high : 256 ≤ address.val) : next.cell address = machine.cell address := by
  cases effect with
  | register =>
    obtain ⟨-, rfl⟩ := changes
    rfl
  | memory =>
    obtain ⟨byte, -, -, rfl⟩ := changes
    have apart : Address.ofByte byte ≠ address := by
      intro same
      have low : (Address.ofByte byte).val < 256 := byte.toNat_lt
      rw [same] at low
      omega
    rw [Machine.cell_setCell, if_neg apart]
  | jump =>
    obtain ⟨target, -, rfl⟩ := changes
    rfl
  | notTaken => rw [show next = machine from changes]
  | halt => rw [show next = machine from changes]

end Effect

/-- Only a quotient by zero has no value. -/
theorem Arithmetic.apply?_eq_none_iff {operation : Arithmetic} {left right : Int32} :
    operation.apply? left right = none ↔ operation = .div ∧ right = 0 := by
  constructor
  · intro result
    cases operation with
    | div =>
      refine ⟨rfl, ?_⟩
      by_cases zero : right = 0
      · exact zero
      · unfold Arithmetic.apply? at result
        rw [if_neg zero] at result
        cases result
    | _ => cases result
  · rintro ⟨rfl, rfl⟩
    rfl

namespace Machine

variable {machine next : Machine} {instr : Instr} {effect : Effect}

theorem execute_arithmetic_of_some {operation : Arithmetic} {destination left right : Register}
    {value : Int32}
    (result : operation.apply? (machine.register left) (machine.register right) = some value) :
    machine.execute (.arithmetic operation destination left right) =
      machine.assign destination value := by
  rw [execute, result]

theorem execute_arithmetic_of_none {operation : Arithmetic} {destination left right : Register}
    (result : operation.apply? (machine.register left) (machine.register right) = none) :
    machine.execute (.arithmetic operation destination left right) =
      .error (.divisionByZero machine.pc.toWord) machine := by
  rw [execute, result]

/-- A division by zero is not executed, and it leaves the machine as it was. -/
theorem execute_of_zero {destination left right : Register} (zero : machine.register right = 0) :
    machine.execute (.arithmetic .div destination left right) =
      .error (.divisionByZero machine.pc.toWord) machine :=
  execute_arithmetic_of_none (Arithmetic.apply?_eq_none_iff.mpr ⟨rfl, zero⟩)

theorem execute_branch (condition : Condition) (tested : Register) (target : UInt8) :
    machine.execute (.branch condition tested target) =
      if condition.holds (machine.register tested) = true then machine.goto (.ofByte target)
      else .ok .notTaken machine :=
  rfl

/-- Every instruction changes what its effect tells. -/
theorem changes_of_execute (executed : machine.execute instr = .ok effect next) :
    effect.Changes machine next := by
  cases instr with
  | load destination value =>
    cases executed
    exact ⟨rfl, rfl⟩
  | store source address =>
    cases executed
    exact ⟨address, rfl, rfl, rfl⟩
  | arithmetic operation destination left right =>
    cases result : operation.apply? (machine.register left) (machine.register right) with
    | none =>
      rw [execute_arithmetic_of_none result] at executed
      cases executed
    | some value =>
      rw [execute_arithmetic_of_some result] at executed
      cases executed
      exact ⟨rfl, rfl⟩
  | jump target =>
    cases executed
    exact ⟨target, rfl, rfl⟩
  | branch condition tested target =>
    rw [execute_branch] at executed
    by_cases holds : condition.holds (machine.register tested) = true
    · rw [if_pos holds] at executed
      cases executed
      exact ⟨.ofByte target, rfl, rfl⟩
    · rw [if_neg holds] at executed
      cases executed
      rfl
  | halt =>
    cases executed
    rfl

/-- Only a division by zero cannot be executed. Whatever is refused leaves the machine as it was. -/
theorem execute_eq_error {fault : Fault} (refused : machine.execute instr = .error fault next) :
    next = machine ∧ fault = .divisionByZero machine.pc.toWord ∧ ∃ destination left right,
      instr = .arithmetic .div destination left right ∧ machine.register right = 0 := by
  cases instr with
  | arithmetic operation destination left right =>
    cases result : operation.apply? (machine.register left) (machine.register right) with
    | some value =>
      rw [execute_arithmetic_of_some result] at refused
      cases refused
    | none =>
      rw [execute_arithmetic_of_none result] at refused
      cases refused
      obtain ⟨rfl, zero⟩ := Arithmetic.apply?_eq_none_iff.mp result
      exact ⟨rfl, rfl, destination, left, right, rfl, zero⟩
  | branch condition tested target =>
    rw [execute_branch] at refused
    split at refused <;> cases refused
  | load => cases refused
  | store => cases refused
  | jump => cases refused
  | halt => cases refused

/-- Only `HALT` halts, and the run goes on at the next address only after an instruction that is
neither `HALT` nor `JMP` nor a conditional jump whose condition holds. -/
theorem execute_control (executed : machine.execute instr = .ok effect next) :
    (effect = .halt → instr = .halt) ∧
      (effect.Passes → instr ≠ .halt ∧ (∀ target, instr ≠ .jump target) ∧
        ∀ condition tested target, instr = .branch condition tested target →
          condition.holds (next.register tested) = false) := by
  cases instr with
  | load destination value =>
    cases executed
    exact ⟨nofun, fun _ => ⟨nofun, nofun, nofun⟩⟩
  | store source address =>
    cases executed
    exact ⟨nofun, fun _ => ⟨nofun, nofun, nofun⟩⟩
  | arithmetic operation destination left right =>
    cases result : operation.apply? (machine.register left) (machine.register right) with
    | none =>
      rw [execute_arithmetic_of_none result] at executed
      cases executed
    | some value =>
      rw [execute_arithmetic_of_some result] at executed
      cases executed
      exact ⟨nofun, fun _ => ⟨nofun, nofun, nofun⟩⟩
  | jump target =>
    cases executed
    exact ⟨nofun, False.elim⟩
  | branch condition tested target =>
    rw [execute_branch] at executed
    by_cases holds : condition.holds (machine.register tested) = true
    · rw [if_pos holds] at executed
      cases executed
      exact ⟨nofun, False.elim⟩
    · rw [if_neg holds] at executed
      cases executed
      refine ⟨nofun, fun _ => ⟨nofun, nofun, ?_⟩⟩
      rintro _ _ _ ⟨⟩
      exact Bool.eq_false_iff.mpr holds
  | halt =>
    cases executed
    exact ⟨fun _ => rfl, False.elim⟩

end Machine

/-! ### Steps -/

namespace Engine

/-- Why a running engine does not execute an instruction: its budget is spent, its word is none, or
it would divide by zero. -/
inductive Refuses (engine : Engine) : Fault → Prop
  | spent {budget : Nat} (limit : engine.budget = some budget) (reached : budget ≤ engine.steps) :
      Refuses engine (.stepBudgetExceeded budget)
  | unknown {error : UnknownOpcode} (unspent : ∀ budget ∈ engine.budget, engine.steps < budget)
      (decoded : Instr.decode (engine.machine.cell engine.machine.pc) = .error error) :
      Refuses engine (.unknownOpcode error.opcode engine.machine.pc.toWord)
  | division {destination left right : Register}
      (unspent : ∀ budget ∈ engine.budget, engine.steps < budget)
      (decoded : Instr.decode (engine.machine.cell engine.machine.pc) =
        .ok (.arithmetic .div destination left right))
      (zero : engine.machine.register right = 0) :
      Refuses engine (.divisionByZero engine.machine.pc.toWord)

/-- A running engine executes the instruction at its program counter. -/
structure Executes (engine : Engine) (instr : Instr) (next : Machine) (effect : Effect) : Prop where
  unspent : ∀ budget ∈ engine.budget, engine.steps < budget
  decoded : Instr.decode (engine.machine.cell engine.machine.pc) = .ok instr
  executed : engine.machine.execute instr = .ok effect next

/-- The report of the next instruction. -/
def event (engine : Engine) (instr : Instr) (effect : Effect) : Event where
  step := engine.steps + 1
  pc := engine.machine.pc.toWord
  word := engine.machine.cell engine.machine.pc
  instr := instr
  effect := effect

/-- What a step of a running engine can do: refuse to go on, halt, jump, go on at the next address,
or fail to because there is none. -/
inductive Transition (engine : Engine) : Engine → List Notice → Prop
  | refuse {fault : Fault} (refuses : engine.Refuses fault) :
      Transition engine { engine with status := .faulted fault }
        [.faulted engine.machine.pc.toWord fault]
  | halt {instr : Instr} {next : Machine} (executes : engine.Executes instr next .halt) :
      Transition engine
        { engine with machine := next, steps := engine.steps + 1, status := .halted }
        [.executed (engine.event instr .halt)]
  | jump {instr : Instr} {next : Machine} {target : Word}
      (executes : engine.Executes instr next (.jump target)) :
      Transition engine { engine with machine := next, steps := engine.steps + 1 }
        [.executed (engine.event instr (.jump target))]
  | pass {instr : Instr} {next : Machine} {effect : Effect} {pc : Address}
      (executes : engine.Executes instr next effect) (passes : effect.Passes)
      (following : pc.val = next.pc.val + 1) :
      Transition engine { engine with machine := { next with pc }, steps := engine.steps + 1 }
        [.executed (engine.event instr effect)]
  | overflow {instr : Instr} {next : Machine} {effect : Effect}
      (executes : engine.Executes instr next effect) (passes : effect.Passes)
      (last : next.pc.val = 4095) :
      Transition engine { engine with
          machine := next, steps := engine.steps + 1, status := .faulted .programCounterOverflow }
        [.executed (engine.event instr effect),
          .faulted next.pc.toWord .programCounterOverflow]

theorem spentBudget?_eq_some_iff {engine : Engine} {budget : Nat} :
    engine.spentBudget? = some budget ↔ engine.budget = some budget ∧ budget ≤ engine.steps := by
  unfold spentBudget?
  rw [Option.filter_eq_some_iff, decide_eq_true_eq]

theorem spentBudget?_eq_none_iff {engine : Engine} :
    engine.spentBudget? = none ↔ ∀ budget ∈ engine.budget, engine.steps < budget := by
  unfold spentBudget?
  rw [Option.filter_eq_none_iff]
  simp only [Option.mem_def, decide_eq_true_eq, Nat.not_le]

variable {engine : Engine}

theorem proceed_of_passes {effect : Effect} (passes : effect.Passes) :
    engine.proceed effect = match engine.machine.advance? with
      | some machine => ({ engine with machine }, [])
      | none => engine.fail .programCounterOverflow := by
  cases effect with
  | jump => exact passes.elim
  | halt => exact passes.elim
  | _ => rfl

/-- After an instruction the run halts, jumps, or goes on at the next address if there is one. -/
theorem transition_proceed {instr : Instr} {next : Machine} {effect : Effect}
    (executes : engine.Executes instr next effect) {after : Engine}
    (same : after = { engine with machine := next, steps := engine.steps + 1 }) :
    Transition engine (after.proceed effect).1
      (.executed (engine.event instr effect) :: (after.proceed effect).2) := by
  subst same
  by_cases passes : effect.Passes
  · rw [proceed_of_passes passes]
    unfold Machine.advance? Address.ofNat?
    by_cases room : next.pc.val + 1 < 4096
    · rw [dif_pos room]
      exact .pass executes passes rfl
    · rw [dif_neg room]
      have last : next.pc.val = 4095 := by
        have := next.pc.isLt
        omega
      exact .overflow executes passes last
  · cases effect with
    | halt => exact .halt executes
    | jump target => exact .jump executes
    | _ => exact absurd trivial passes

theorem refuses_or_executes (engine : Engine) : (∃ fault, engine.Refuses fault) ∨
    ∃ instr next effect, engine.Executes instr next effect := by
  cases spent : engine.spentBudget? with
  | some budget =>
    obtain ⟨limit, reached⟩ := spentBudget?_eq_some_iff.mp spent
    exact .inl ⟨_, .spent limit reached⟩
  | none =>
    have unspent := spentBudget?_eq_none_iff.mp spent
    cases decoded : Instr.decode (engine.machine.cell engine.machine.pc) with
    | error error => exact .inl ⟨_, .unknown unspent decoded⟩
    | ok instr =>
      cases executed : engine.machine.execute instr with
      | error fault next =>
        obtain ⟨-, -, destination, left, right, rfl, zero⟩ := Machine.execute_eq_error executed
        exact .inl ⟨_, .division unspent decoded zero⟩
      | ok effect next => exact .inr ⟨instr, next, effect, unspent, decoded, executed⟩

/-- What is executed is not refused. -/
theorem Executes.not_refuses {instr : Instr} {next : Machine} {effect : Effect} {fault : Fault}
    (executes : engine.Executes instr next effect) : ¬ engine.Refuses fault := by
  intro refuses
  cases refuses with
  | spent limit reached => exact absurd (executes.unspent _ limit) (Nat.not_lt_of_le reached)
  | unknown _ undecoded => cases executes.decoded.symm.trans undecoded
  | division _ divides zero =>
    obtain rfl := Except.ok.inj (executes.decoded.symm.trans divides)
    cases executes.executed.symm.trans (Machine.execute_of_zero zero)

theorem step_of_refuses (running : engine.status = .running) {fault : Fault}
    (refuses : engine.Refuses fault) : engine.step = engine.fail fault := by
  unfold step
  rw [running]
  cases refuses with
  | spent limit reached => simp only [spentBudget?_eq_some_iff.mpr ⟨limit, reached⟩]
  | unknown unspent decoded => simp only [spentBudget?_eq_none_iff.mpr unspent, decoded]
  | division unspent decoded zero =>
    simp only [spentBudget?_eq_none_iff.mpr unspent, decoded, Machine.execute_of_zero zero]
    rfl

theorem step_of_executes (running : engine.status = .running) {instr : Instr} {next : Machine}
    {effect : Effect} (executes : engine.Executes instr next effect) {after : Engine}
    (same : after = { engine with machine := next, steps := engine.steps + 1 }) :
    engine.step = ((after.proceed effect).1,
      .executed (engine.event instr effect) :: (after.proceed effect).2) := by
  subst same
  unfold step
  rw [running]
  simp only [spentBudget?_eq_none_iff.mpr executes.unspent, executes.decoded, executes.executed]
  rfl

/-- A step of a running engine does one of the things that it can do. -/
theorem transition_step (running : engine.status = .running) :
    Transition engine engine.step.1 engine.step.2 := by
  rcases refuses_or_executes engine with ⟨fault, refuses⟩ | ⟨instr, next, effect, executes⟩
  · rw [step_of_refuses running refuses]
    exact .refuse refuses
  · rw [step_of_executes running executes rfl]
    exact transition_proceed executes rfl

end Engine

end Asm16
