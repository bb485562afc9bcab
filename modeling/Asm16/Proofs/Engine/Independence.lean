/-
**Memory that is never fetched does not influence a run.**

Two runs are compared whose machines differ in memory only:

* `Effect.blurred`, `Notice.blurred` — a report without the word that a cell held before.
* `Engine.fetched` — the cells from which a run fetches a word that was there at the start.
* `Engine.cell_after` — a cell holds the word that was stored there last, or else the one at the
  start.
* `Engine.Alike.step` — engines that differ in memory only, but fetch the same word, make the same
  step.
* `Engine.independent_ofMachine` — two runs are alike as long as memory agrees where the first one
  has fetched from it.
-/

import Asm16.Proofs.Engine.Lifetime
import Asm16.Proofs.Engine.Replay

namespace Asm16

/-- An effect without the word that a memory cell held before it. -/
def Effect.blurred : Effect → Effect
  | memory address _ after => memory address 0 after
  | effect => effect

/-- A notice without the word that a memory cell held before. -/
def Notice.blurred : Notice → Notice
  | executed event => executed { event with effect := event.effect.blurred }
  | faulted pc fault => faulted pc fault

/-! ### Machines that differ in memory only -/

namespace Machine

/-- Machines that have the same program counter and registers. -/
structure Alike (first second : Machine) : Prop where
  pc : first.pc = second.pc
  registers : first.registers = second.registers

variable {first second : Machine}

theorem Alike.register (alike : first.Alike second) (register : Register) :
    first.register register = second.register register := by
  unfold Machine.register
  rw [alike.registers]

theorem Alike.setRegister (alike : first.Alike second) (register : Register) (value : Int32) :
    (first.setRegister register value).Alike (second.setRegister register value) := by
  refine ⟨alike.pc, ?_⟩
  unfold Machine.setRegister
  rw [alike.registers]

theorem Alike.goto (alike : first.Alike second) (target : Address) :
    Machine.Alike { first with pc := target } { second with pc := target } :=
  ⟨rfl, alike.registers⟩

/-- An instruction does the same in memory and elsewhere, whatever is in memory. -/
theorem Alike.execute (alike : first.Alike second) {instr : Instr} {next : Machine}
    {effect : Effect} (executed : first.execute instr = .ok effect next) :
    ∃ other changed, second.execute instr = .ok changed other ∧ next.Alike other ∧
      effect.blurred = changed.blurred := by
  cases instr with
  | load destination value =>
    cases executed
    refine ⟨_, _, rfl, alike.setRegister _ _, ?_⟩
    rw [alike.register]
  | store source address =>
    cases executed
    refine ⟨_, _, rfl, ⟨alike.pc, alike.registers⟩, ?_⟩
    rw [alike.register]
    rfl
  | arithmetic operation destination left right =>
    cases result : operation.apply? (first.register left) (first.register right) with
    | none =>
      rw [execute_arithmetic_of_none result] at executed
      cases executed
    | some value =>
      rw [execute_arithmetic_of_some result] at executed
      cases executed
      rw [alike.register left, alike.register right] at result
      refine ⟨_, _, execute_arithmetic_of_some result, alike.setRegister _ _, ?_⟩
      rw [alike.register]
  | jump target =>
    cases executed
    exact ⟨_, _, rfl, alike.goto target, rfl⟩
  | branch condition tested target =>
    rw [execute_branch] at executed
    rw [execute_branch, ← alike.register]
    by_cases holds : condition.holds (first.register tested) = true
    · rw [if_pos holds] at executed ⊢
      cases executed
      exact ⟨_, _, rfl, alike.goto _, rfl⟩
    · rw [if_neg holds] at executed ⊢
      cases executed
      exact ⟨_, _, rfl, alike, rfl⟩
  | halt =>
    cases executed
    exact ⟨_, _, rfl, alike, rfl⟩

end Machine

namespace Engine

/-! ### Words in memory -/

/-- The cells to which one of the reported instructions has stored a word. -/
def stored (notices : List Notice) : Set Address :=
  {address | ∃ event ∈ instructionEvents notices, ∃ before after,
    event.effect = .memory address.toWord before after}

/-- The next step fetches the word at the program counter: the run goes on and no budget is spent.
The word need not be that of an instruction. -/
structure Fetches (engine : Engine) : Prop where
  running : engine.status = .running
  unspent : ∀ limit ∈ engine.budget, engine.steps < limit

/-- The cells from which the next steps fetch a word that none of them has stored there before. -/
def fetched (engine : Engine) (count : Nat) : Set Address :=
  {address | ∃ earlier < count, (engine.after earlier).Fetches ∧
    (engine.after earlier).machine.pc = address ∧ address ∉ stored (engine.reports earlier)}

theorem stored?_eq_some_iff {effect : Effect} {address word : Word} :
    effect.stored? address = some word ↔ ∃ before, effect = .memory address before word := by
  cases effect with
  | memory target before after =>
    unfold Effect.stored?
    by_cases same : target = address
    · subst same
      simp
    · simp [same]
  | _ => simp [Effect.stored?]

theorem lastStored_eq_none_iff {notices : List Notice} {address : Address} :
    lastStored address.toWord (instructionEvents notices) = none ↔ address ∉ stored notices := by
  unfold lastStored stored
  rw [List.getLast?_eq_none_iff, List.filterMap_eq_nil_iff]
  constructor
  · rintro unstored ⟨event, member, before, after, effect⟩
    have written := stored?_eq_some_iff.mpr ⟨before, effect⟩
    rw [unstored event member] at written
    cases written
  · intro unstored event member
    cases written : event.effect.stored? address.toWord with
    | none => rfl
    | some after =>
      obtain ⟨before, effect⟩ := stored?_eq_some_iff.mp written
      exact absurd ⟨event, member, before, after, effect⟩ unstored

/-- A memory cell holds the word that was stored there last, or else the one at the start. -/
theorem cell_after (machine : Machine) (budget : Option Nat) (count : Nat) (address : Address) :
    ((ofMachine machine budget).after count).machine.cell address =
      (lastStored address.toWord
        (instructionEvents ((ofMachine machine budget).reports count))).getD
          (machine.cell address) := by
  have recorded := recorded_after machine budget count
  have known := Replay.memory_after (.ofMachine machine)
    (instructionEvents ((ofMachine machine budget).reports count)) address.toWord
  have cell (machine : Machine) :
      machine.memory[address.toWord.toNat]? = some (machine.cell address) := by
    rw [Address.toNat_toWord]
    exact Vector.getElem?_eq_getElem address.isLt
  rw [recorded.knows.memory, cell] at known
  rw [show (Replay.ofMachine machine).memory[address.toWord.toNat]? = _ from cell machine] at known
  exact Option.some.inj known

theorem lastStored_blurred (address : Word) (notices : List Notice) :
    lastStored address (instructionEvents (notices.map .blurred)) =
      lastStored address (instructionEvents notices) := by
  unfold lastStored instructionEvents
  rw [List.filterMap_map, List.filterMap_filterMap, List.filterMap_filterMap]
  congr 1
  refine List.filterMap_congr fun notice _ => ?_
  cases notice with
  | faulted => rfl
  | executed event =>
    show Effect.stored? address event.effect.blurred = Effect.stored? address event.effect
    cases event.effect <;> rfl

/-! ### Engines that differ in memory only -/

/-- Engines that are the same but for their memory. -/
structure Alike (first second : Engine) : Prop where
  machine : first.machine.Alike second.machine
  status : first.status = second.status
  budget : first.budget = second.budget
  steps : first.steps = second.steps

variable {first second : Engine}

theorem Alike.fail (alike : Alike first second) (fault : Fault) :
    Alike (first.fail fault).1 (second.fail fault).1 ∧
      (first.fail fault).2 = (second.fail fault).2 := by
  refine ⟨⟨alike.machine, rfl, alike.budget, alike.steps⟩, ?_⟩
  show [Notice.faulted first.machine.pc.toWord fault] = _
  rw [alike.machine.pc]
  rfl

theorem proceed_blurred (engine : Engine) (effect : Effect) :
    engine.proceed effect.blurred = engine.proceed effect := by
  cases effect <;> rfl

theorem Alike.proceed (alike : Alike first second) (effect : Effect) :
    Alike (first.proceed effect).1 (second.proceed effect).1 ∧
      (first.proceed effect).2 = (second.proceed effect).2 := by
  by_cases passes : effect.Passes
  · rw [proceed_of_passes passes, proceed_of_passes passes]
    unfold Machine.advance?
    rw [alike.machine.pc]
    cases Address.ofNat? (second.machine.pc.val + 1) with
    | none => exact alike.fail _
    | some pc =>
      exact ⟨⟨⟨rfl, alike.machine.registers⟩, alike.status, alike.budget, alike.steps⟩, rfl⟩
  · cases effect with
    | halt => exact ⟨⟨alike.machine, rfl, alike.budget, alike.steps⟩, rfl⟩
    | jump => exact ⟨alike, rfl⟩
    | _ => exact absurd trivial passes

theorem Alike.unspent (alike : Alike first second)
    (unspent : ∀ limit ∈ first.budget, first.steps < limit) :
    ∀ limit ∈ second.budget, second.steps < limit := by
  rwa [← alike.budget, ← alike.steps]

theorem Alike.event (alike : Alike first second)
    (word : first.machine.cell first.machine.pc = second.machine.cell second.machine.pc)
    {instr : Instr} {effect changed : Effect} (blurred : effect.blurred = changed.blurred) :
    (Notice.executed (first.event instr effect)).blurred =
      (Notice.executed (second.event instr changed)).blurred := by
  show Notice.executed { first.event instr effect with effect := effect.blurred } = _
  unfold Engine.event
  rw [word, alike.steps, alike.machine.pc, blurred]
  rfl

/-- Engines that differ in memory only make the same step, if a word that it fetches is the same. -/
theorem Alike.step (alike : Alike first second) (word : first.Fetches →
      first.machine.cell first.machine.pc = second.machine.cell second.machine.pc) :
    Alike first.step.1 second.step.1 ∧
      first.step.2.map Notice.blurred = second.step.2.map Notice.blurred := by
  by_cases running : first.status = .running
  · have also_running : second.status = .running := alike.status.symm.trans running
    rcases refuses_or_executes first with ⟨fault, refuses⟩ | ⟨instr, next, effect, executes⟩
    · have also_refuses : second.Refuses fault := by
        cases refuses with
        | spent limit reached =>
          exact .spent (alike.budget.symm.trans limit) (alike.steps ▸ reached)
        | unknown unspent decoded =>
          rw [word ⟨running, unspent⟩] at decoded
          rw [alike.machine.pc]
          exact .unknown (alike.unspent unspent) decoded
        | division unspent decoded zero =>
          rw [word ⟨running, unspent⟩] at decoded
          rw [alike.machine.register] at zero
          rw [alike.machine.pc]
          exact .division (alike.unspent unspent) decoded zero
      obtain ⟨fails, same⟩ := alike.fail fault
      rw [step_of_refuses running refuses, step_of_refuses also_running also_refuses]
      exact ⟨fails, congrArg _ same⟩
    · obtain ⟨other, changed, executed, alike_next, blurred⟩ :=
        alike.machine.execute executes.executed
      have same_word := word ⟨running, executes.unspent⟩
      have also_executes : second.Executes instr other changed :=
        ⟨alike.unspent executes.unspent, same_word ▸ executes.decoded, executed⟩
      have executed_alike : Alike { first with machine := next, steps := first.steps + 1 }
          { second with machine := other, steps := second.steps + 1 } :=
        ⟨alike_next, alike.status, alike.budget, congrArg (· + 1) alike.steps⟩
      obtain ⟨proceeds, same⟩ := executed_alike.proceed effect.blurred
      rw [step_of_executes running executes rfl, step_of_executes also_running also_executes rfl,
        List.map_cons, List.map_cons, alike.event same_word blurred, ← proceed_blurred _ effect,
        ← proceed_blurred _ changed, ← blurred, same]
      exact ⟨proceeds, rfl⟩
  · rw [step_of_not_running running, step_of_not_running (alike.status ▸ running)]
    exact ⟨alike, rfl⟩

/-! ### Runs from machines that differ in memory only -/

/-- Two runs are the same but for their memory, and report the same but for the words that were in
memory before; memory is the same where the runs have stored to it, and as it was elsewhere. -/
structure Independent (start other : Engine) (count : Nat) : Prop where
  alike : Alike (start.after count) (other.after count)
  reports : (start.reports count).map Notice.blurred = (other.reports count).map Notice.blurred
  stored : ∀ address ∈ stored (start.reports count),
    (start.after count).machine.cell address = (other.after count).machine.cell address
  kept : ∀ address ∉ Engine.stored (start.reports count),
    (start.after count).machine.cell address = start.machine.cell address ∧
      (other.after count).machine.cell address = other.machine.cell address

variable {machine other : Machine} {budget : Option Nat} {count : Nat}

theorem fetched_mono (engine : Engine) {less more : Nat} (le : less ≤ more) :
    engine.fetched less ⊆ engine.fetched more :=
  fun _ ⟨earlier, bound, fetches⟩ => ⟨earlier, bound.trans_le le, fetches⟩

/-- Two runs whose reports are the same have stored the same words at the same addresses. -/
theorem lastStored_of_blurred (address : Word) {notices others : List Notice}
    (same : notices.map Notice.blurred = others.map Notice.blurred) :
    lastStored address (instructionEvents notices) =
      lastStored address (instructionEvents others) := by
  rw [← lastStored_blurred, same, lastStored_blurred]

/-- Two runs are alike as long as memory agrees where the first one has fetched from it. -/
theorem alike_after (alike : machine.Alike other)
    (agree : ∀ address ∈ (ofMachine machine budget).fetched count,
      machine.cell address = other.cell address) :
    Alike ((ofMachine machine budget).after count) ((ofMachine other budget).after count) ∧
      ((ofMachine machine budget).reports count).map Notice.blurred =
        ((ofMachine other budget).reports count).map Notice.blurred := by
  induction count with
  | zero => exact ⟨⟨alike, rfl, rfl, rfl⟩, rfl⟩
  | succ count ih =>
    obtain ⟨before, reports⟩ := ih fun address member =>
      agree address (fetched_mono _ (Nat.le_succ count) member)
    -- A fetched word was stored by both runs, or it is one on which their memories agree.
    obtain ⟨after, more⟩ := before.step fun fetches => by
      rw [← before.machine.pc, cell_after, cell_after, lastStored_of_blurred _ reports]
      cases last : lastStored ((ofMachine machine budget).after count).machine.pc.toWord
          (instructionEvents ((ofMachine other budget).reports count)) with
      | some word => rfl
      | none =>
        rw [← lastStored_of_blurred _ reports] at last
        exact agree _ ⟨count, Nat.lt_succ_self count, fetches, rfl, lastStored_eq_none_iff.mp last⟩
    rw [after_succ, after_succ, reports_succ, reports_succ, List.map_append, List.map_append,
      reports, more]
    exact ⟨after, rfl⟩

/-- **Memory that is never fetched does not influence a run**: what a run does depends only on its
program counter, its registers, its budget and the words that it fetches before it stores others in
their place. -/
theorem independent_ofMachine {machine other : Machine} (pc : machine.pc = other.pc)
    (registers : machine.registers = other.registers) (budget : Option Nat) (count : Nat)
    (agree : ∀ address ∈ (ofMachine machine budget).fetched count,
      machine.cell address = other.cell address) :
    Independent (ofMachine machine budget) (ofMachine other budget) count := by
  obtain ⟨alike, reports⟩ := alike_after ⟨pc, registers⟩ agree
  refine ⟨alike, reports, fun address member => ?_, fun address unstored => ?_⟩
  · rw [cell_after, cell_after, lastStored_of_blurred _ reports]
    cases last : lastStored address.toWord
        (instructionEvents ((ofMachine other budget).reports count)) with
    | some word => rfl
    | none =>
      rw [← lastStored_of_blurred _ reports] at last
      exact absurd member (lastStored_eq_none_iff.mp last)
  · have last := lastStored_eq_none_iff.mpr unstored
    rw [cell_after, cell_after, ← lastStored_of_blurred _ reports, last]
    exact ⟨rfl, rfl⟩

/-- A cell that is overwritten before it is executed does not matter, nor does one that is not
reached. -/
theorem independent_of_overwritten_cell :
    let machine := (Machine.fresh.setCell 0 0x2001).setCell 1 0xF000
    let other := ((Machine.fresh.setCell 0 0x2001).setCell 1 0x1105).setCell 300 7
    (∀ address ∈ (ofMachine machine (some 5)).fetched 2,
      machine.cell address = other.cell address) ∧
      Independent (ofMachine machine (some 5)) (ofMachine other (some 5)) 2 := by
  intro machine other
  have agree : ∀ address ∈ (ofMachine machine (some 5)).fetched 2,
      machine.cell address = other.cell address := by
    rintro address ⟨earlier, bound, -, rfl, unstored⟩
    obtain rfl | rfl : earlier = 0 ∨ earlier = 1 := by omega
    · decide +kernel
    · have overwritten : lastStored ((ofMachine machine (some 5)).after 1).machine.pc.toWord
          (instructionEvents ((ofMachine machine (some 5)).reports 1)) ≠ none := by
        decide +kernel
      exact absurd (lastStored_eq_none_iff.mpr unstored) overwritten
  have pc : machine.pc = other.pc := rfl
  have registers : machine.registers = other.registers := rfl
  exact ⟨agree, independent_ofMachine pc registers (some 5) 2 agree⟩

end Engine

end Asm16
