/-
**Engines of plain numbers.**

* `PlainEngine` — a run on a machine of plain numbers, with its notices `PlainNotice`.
* `PlainEngine.step`, `PlainEngine.after` — one step and any number of steps with what they report,
  unless there is a trap. An index out of bounds ends the run with a fault.
* `PlainEngine.step_of_breaks` — when an instruction breaks off, nothing but the status changes.
* `Engine.plain`, `Notice.plain` — an engine and its notices in plain numbers.
* `Engine.step_plain`, `Engine.after_plain` — the plain numbers of an engine take the same steps as
  the engine and report the same, until the executed instructions can no longer be counted.
-/

import Asm16.Proofs.Engine.Lifetime
import Asm16.Proofs.Machine.Plain

namespace Asm16

/-! ### Engines -/

/-- An executed instruction: its number counted from one, its address, its word, what the word
decodes to and what it changed. -/
structure PlainEvent where
  step : Nat
  pc : Word
  word : Word
  instr : PlainInstr
  effect : PlainEffect
deriving DecidableEq, Repr

/-- What a run reports while it goes on. -/
inductive PlainNotice
  | executed (event : PlainEvent)
  | faulted (pc : Word) (fault : Fault)
deriving DecidableEq, Repr

/-- A run on a machine of plain numbers: its status, the number of instructions it may execute, if
limited, and the number it has executed. -/
structure PlainEngine where
  machine : PlainMachine
  status : Status
  budget : Option Nat
  steps : Nat
deriving DecidableEq

namespace PlainEngine

/-- The run of a prepared machine from its program counter on. -/
def ofMachine (machine : PlainMachine) (budget : Option Nat) : PlainEngine where
  machine
  status := .running
  budget
  steps := 0

/-- Ends the run with a fault at the program counter. -/
def fail (engine : PlainEngine) (fault : Fault) : PlainEngine × List PlainNotice :=
  ({ engine with status := .faulted fault }, [.faulted engine.machine.pc fault])

/-- The limit on executed instructions, if it has been reached. -/
def spentBudget? (engine : PlainEngine) : Option Nat :=
  engine.budget.filter (· ≤ engine.steps)

/-- The word after another one, if it has 16 bits. -/
def increment (word : Word) : Except Trap Word :=
  if word.toNat + 1 < 2 ^ 16 then .ok (word + 1) else .error .increment

/-- The engine with one more executed instruction, if they can be counted in 64 bits. -/
def countStep (engine : PlainEngine) : Except Trap PlainEngine :=
  if engine.steps + 1 ≤ Numeral.largest64 then .ok { engine with steps := engine.steps + 1 }
  else .error .stepCounter

/-- The run goes on at another address. -/
def goto (engine : PlainEngine) (target : Word) : Except Trap (PlainEngine × List PlainNotice) := do
  let machine ← engine.machine.setPc target
  return ({ engine with machine }, [])

/-- The engine after the instruction at an address had the given effect. -/
def proceed (engine : PlainEngine) (pc : Word) (effect : PlainEffect) :
    Except Trap (PlainEngine × List PlainNotice) :=
  match effect with
  | .halt => return ({ engine with status := .halted }, [])
  | .jump target => engine.goto target
  | _ =>
    if 4096 ≤ pc.toNat + 1 then return engine.fail .programCounterOverflow
    else do
      let target ← increment pc
      engine.goto target

/-- The engine after its next instruction and what there is to report, unless there is a trap. -/
def step (engine : PlainEngine) : Except Trap (PlainEngine × List PlainNotice) :=
  match engine.status with
  | .halted | .faulted _ => return (engine, [])
  | .running =>
    match engine.spentBudget? with
    | some budget => return engine.fail (.stepBudgetExceeded budget)
    | none =>
      let pc := engine.machine.pc
      match PlainMachine.executeNext pc engine.machine with
      | .error (.fault fault) machine => return { engine with machine }.fail fault
      | .error (.trap trap) _ => .error trap
      | .ok (word, instr, effect) machine => do
        let counted ← { engine with machine }.countStep
        let next ← counted.proceed pc effect
        return (next.1, .executed { step := counted.steps, pc, word, instr, effect } :: next.2)

/-- The engine after a number of steps and what they report, unless there is a trap. -/
def after (engine : PlainEngine) : Nat → Except Trap (PlainEngine × List PlainNotice)
  | 0 => return (engine, [])
  | count + 1 => do
    let last ← engine.after count
    let next ← last.1.step
    return (next.1, last.2 ++ next.2)

/-! ### Steps by what the instruction comes to -/

variable {engine : PlainEngine} {machine : PlainMachine}

/-- A run that is over stays as it is and reports nothing. -/
theorem step_of_not_running (stopped : engine.status ≠ .running) :
    engine.step = .ok (engine, []) := by
  unfold step
  split
  · rfl
  · rfl
  · next running => exact absurd running stopped

/-- No number of steps changes a run that is over, or gets a report out of it. -/
theorem after_of_not_running (stopped : engine.status ≠ .running) (count : Nat) :
    engine.after count = .ok (engine, []) := by
  induction count with
  | zero => rfl
  | succ count ih =>
    rw [after, ih]
    show (engine.step >>= fun next => _) = _
    rw [step_of_not_running stopped]
    rfl

/-- A spent budget comes before what the next instruction would be. -/
theorem step_of_spent {budget : Nat} (running : engine.status = .running)
    (spent : engine.spentBudget? = some budget) :
    engine.step = .ok (engine.fail (.stepBudgetExceeded budget)) := by
  unfold step
  simp only [running, spent]
  rfl

/-- An instruction that breaks off with a fault ends the run, and changes nothing else. -/
theorem step_of_breaks {fault : Fault} (running : engine.status = .running)
    (unspent : engine.spentBudget? = none)
    (breaks : PlainMachine.executeNext engine.machine.pc engine.machine =
      .error (.fault fault) machine) : engine.step = .ok (engine.fail fault) := by
  obtain rfl := PlainMachine.atomic_executeNext _ breaks
  unfold step
  simp only [running, unspent, breaks]
  rfl

variable {word : Word} {instr : PlainInstr} {effect : PlainEffect}

/-- A running plain engine counts the instruction that it has executed, and goes on. -/
theorem step_of_executeNext (running : engine.status = .running)
    (unspent : engine.spentBudget? = none)
    (executed : PlainMachine.executeNext engine.machine.pc engine.machine =
      .ok (word, instr, effect) machine)
    (counts : engine.steps + 1 ≤ Numeral.largest64) : engine.step =
      (PlainEngine.proceed { engine with machine, steps := engine.steps + 1 }
        engine.machine.pc effect).map fun next => (next.1,
          .executed ⟨engine.steps + 1, engine.machine.pc, word, instr, effect⟩ :: next.2) := by
  unfold step
  simp only [running, unspent, executed, countStep, if_pos counts]
  rfl

/-- An executed instruction that cannot be counted is a trap. -/
theorem step_of_uncounted (running : engine.status = .running)
    (unspent : engine.spentBudget? = none)
    (executed : PlainMachine.executeNext engine.machine.pc engine.machine =
      .ok (word, instr, effect) machine)
    (counts : ¬engine.steps + 1 ≤ Numeral.largest64) : engine.step = .error .stepCounter := by
  unfold step
  simp only [running, unspent, executed, countStep, if_neg counts]
  rfl

end PlainEngine

/-! ### Engines as plain numbers -/

/-- An engine with its machine as plain numbers. -/
def Engine.plain (engine : Engine) : PlainEngine where
  machine := engine.machine.plain
  status := engine.status
  budget := engine.budget
  steps := engine.steps

/-- The plain numbers of an event. -/
def Event.plain (event : Event) : PlainEvent where
  step := event.step
  pc := event.pc
  word := event.word
  instr := event.instr.plain
  effect := event.effect.plain

/-- The plain numbers of a notice. -/
def Notice.plain : Notice → PlainNotice
  | executed event => .executed event.plain
  | faulted pc fault => .faulted pc fault

namespace Engine

variable {engine : Engine}

/-- The plain numbers of an engine and of what it has reported, if 64 bits are enough for the
executed instructions. -/
def counted (engine : Engine) (notices : List Notice) :
    Except Trap (PlainEngine × List PlainNotice) :=
  if engine.steps ≤ Numeral.largest64 then .ok (engine.plain, notices.map Notice.plain)
  else .error .stepCounter

theorem counted_eq_ok {notices : List Notice} {plain : PlainEngine} {reported : List PlainNotice}
    (counted : engine.counted notices = .ok (plain, reported)) :
    engine.steps ≤ Numeral.largest64 ∧ plain = engine.plain ∧
      reported = notices.map Notice.plain := by
  unfold Engine.counted at counted
  split at counted
  · next within =>
    cases counted
    exact ⟨within, rfl, rfl⟩
  · cases counted

/-! ### Steps of plain numbers -/

/-- The word after that of an address that is not the last one is that of the next address. -/
theorem increment_toWord (address next : Address) (following : next.val = address.val + 1) :
    PlainEngine.increment address.toWord = .ok next.toWord := by
  have bound := next.isLt
  have room : address.toWord.toNat + 1 < 2 ^ 16 := by
    rw [address.toNat_toWord]
    omega
  rw [PlainEngine.increment, if_pos room]
  congr 1
  apply UInt16.toNat_inj.mp
  rw [UInt16.toNat_add, address.toNat_toWord, next.toNat_toWord, following]
  show (address.val + 1) % 65536 = address.val + 1
  omega

theorem goto_plain (engine : Engine) (address : Address) : engine.plain.goto address.toWord =
    .ok ({ engine with machine := { engine.machine with pc := address } }.plain, []) := by
  show (engine.machine.plain.setPc address.toWord >>= fun machine => _) = _
  rw [Machine.setPc_plain]
  rfl

/-- After an instruction that neither halts nor jumps, a plain engine goes on at the next address,
if there is one. -/
theorem proceed_plain_of_passes {effect : Effect} (passes : effect.Passes) :
    engine.plain.proceed engine.machine.pc.toWord effect.plain =
      .ok ((engine.proceed effect).1.plain, (engine.proceed effect).2.map Notice.plain) := by
  have unfolded : engine.plain.proceed engine.machine.pc.toWord effect.plain =
      if 4096 ≤ engine.machine.pc.toWord.toNat + 1 then
        .ok (engine.plain.fail .programCounterOverflow)
      else PlainEngine.increment engine.machine.pc.toWord >>= engine.plain.goto := by
    cases effect with
    | jump => exact passes.elim
    | halt => exact passes.elim
    | _ => rfl
  rw [unfolded, Address.toNat_toWord, proceed_of_passes passes, Machine.advance?, Address.ofNat?]
  by_cases room : engine.machine.pc.val + 1 < 4096
  · have incremented : PlainEngine.increment engine.machine.pc.toWord = .ok _ :=
      increment_toWord engine.machine.pc ⟨engine.machine.pc.val + 1, room⟩ rfl
    rw [dif_pos room, if_neg (Nat.not_le.mpr room), incremented]
    exact goto_plain engine _
  · rw [dif_neg room, if_pos (Nat.not_lt.mp room)]
    rfl

/-- A plain engine goes on to where its engine goes on. Only there does it jump. -/
theorem proceed_plain (engine : Engine) {machine : Machine} {effect : Effect}
    (changes : effect.Changes machine engine.machine) :
    PlainEngine.proceed { engine with machine := { engine.machine with pc := machine.pc } }.plain
      machine.pc.toWord effect.plain =
        .ok ((engine.proceed effect).1.plain, (engine.proceed effect).2.map Notice.plain) := by
  obtain ⟨next, status, budget, steps⟩ := engine
  by_cases passes : effect.Passes
  · have pc : next.pc = machine.pc := changes.pc_of_passes passes
    rw [← pc]
    exact proceed_plain_of_passes passes
  · cases effect with
    | halt =>
      obtain rfl : next = machine := changes
      rfl
    | jump target =>
      obtain ⟨address, rfl, rfl⟩ := changes
      exact goto_plain ⟨machine, status, budget, steps⟩ address
    | _ => exact absurd trivial passes

/-- What an engine refuses is refused on its plain numbers. -/
theorem step_plain_of_refuses (running : engine.status = .running) {fault : Fault}
    (refuses : engine.Refuses fault) : engine.plain.step = .ok (engine.plain.fail fault) := by
  have next : PlainMachine.executeNext engine.plain.machine.pc engine.plain.machine = _ :=
    engine.machine.executeNext_plain
  cases refuses with
  | spent limit reached =>
    have spent : engine.plain.spentBudget? = _ := spentBudget?_eq_some_iff.mpr ⟨limit, reached⟩
    exact PlainEngine.step_of_spent running spent
  | unknown unspent decoded =>
    rw [decoded] at next
    exact PlainEngine.step_of_breaks running (spentBudget?_eq_none_iff.mpr unspent) next
  | division unspent decoded zero =>
    simp only [decoded, Machine.execute_of_zero zero] at next
    exact PlainEngine.step_of_breaks running (spentBudget?_eq_none_iff.mpr unspent) next

/-- What an engine executes is executed on its plain numbers, but for a jump. -/
theorem executeNext_of_executes {instr : Instr} {next : Machine} {effect : Effect}
    (executes : engine.Executes instr next effect) :
    PlainMachine.executeNext engine.plain.machine.pc engine.plain.machine =
      .ok (engine.machine.cell engine.machine.pc, instr.plain, effect.plain)
        { next with pc := engine.machine.pc }.plain := by
  have executed : PlainMachine.executeNext engine.plain.machine.pc engine.plain.machine = _ :=
    engine.machine.executeNext_plain
  simp only [executes.decoded, executes.executed] at executed
  exact executed

/-- An instruction is counted when it has been executed, before the run goes on. -/
theorem steps_proceed (engine : Engine) (effect : Effect) :
    (engine.proceed effect).1.steps = engine.steps := by
  by_cases passes : effect.Passes
  · rw [proceed_of_passes passes]
    cases engine.machine.advance? <;> rfl
  · cases effect with
    | halt | jump => rfl
    | _ => exact absurd trivial passes

/-- **One step of the plain numbers of an engine is a step of the engine**, also in what it
reports. -/
theorem step_plain (within : engine.steps ≤ Numeral.largest64) :
    engine.plain.step = engine.step.1.counted engine.step.2 := by
  by_cases running : engine.status = .running
  · rcases refuses_or_executes engine with ⟨fault, refuses⟩ | ⟨instr, next, effect, executes⟩
    · rw [step_plain_of_refuses running refuses, step_of_refuses running refuses]
      exact (if_pos within).symm
    · have executed := executeNext_of_executes executes
      have unspent : engine.plain.spentBudget? = none :=
        spentBudget?_eq_none_iff.mpr executes.unspent
      rw [step_of_executes running executes rfl, counted, steps_proceed]
      by_cases counts : engine.steps + 1 ≤ Numeral.largest64
      · have proceeded := proceed_plain { engine with machine := next, steps := engine.steps + 1 }
          (Machine.changes_of_execute executes.executed)
        rw [PlainEngine.step_of_executeNext running unspent executed counts, if_pos counts]
        exact congrArg (Except.map _) proceeded
      · rw [PlainEngine.step_of_uncounted running unspent executed counts, if_neg counts]
  · rw [PlainEngine.step_of_not_running running, step_of_not_running running]
    exact (if_pos within).symm

/-- A step never takes back an executed instruction. -/
theorem steps_le_step (engine : Engine) : engine.steps ≤ engine.step.1.steps := by
  by_cases running : engine.status = .running
  · exact (transition_step running).steps_le
  · rw [step_of_not_running running]

/-- **The plain numbers of an engine take the steps of the engine**, and report what they report,
as long as the executed instructions can be counted. -/
theorem after_plain (within : engine.steps ≤ Numeral.largest64) (count : Nat) :
    engine.plain.after count = (engine.after count).counted (engine.reports count) := by
  induction count with
  | zero => exact (if_pos within).symm
  | succ count ih =>
    rw [PlainEngine.after, ih, after_succ, reports_succ]
    by_cases counts : (engine.after count).steps ≤ Numeral.largest64
    · rw [counted, if_pos counts]
      show ((engine.after count).plain.step >>= fun next => _) = _
      rw [step_plain counts, counted, counted]
      split
      · rw [List.map_append]
        rfl
      · rfl
    · -- A trap is never left again: no step takes the number of instructions back.
      have later := steps_le_step (engine.after count)
      rw [counted, counted, if_neg counts, if_neg (by omega)]
      rfl

end Engine

end Asm16
