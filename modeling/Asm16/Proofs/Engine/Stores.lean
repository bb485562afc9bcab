/-
**Only `STORE` changes memory, and only the first 256 cells.**

A program can overwrite its own instructions, with a `STORE` that is itself the work of an earlier
one. What a memory cell holds is still known:

* `Engine.Stores` — the next step executes a `STORE` to an address.
* `Engine.cell_step_of_stores`, `Engine.cell_step_of_not_stores` — the cell then holds what the
  table of instructions says; else no step changes it.
* `Engine.Holds` — after any number of steps a cell holds what was stored there last, or what it
  held at the start (`Engine.holds_after`).
* `Engine.Intact` — the cells that no `STORE` can reach are as they were at the start, and so are
  the instructions fetched from there.
-/

import Asm16.Proofs.Engine.Replay
import Asm16.Proofs.Engine.Table

namespace Asm16

namespace Engine

/-- The next step executes a `STORE` of a register to an address. -/
structure Stores (engine : Engine) (source : Register) (address : Address) : Prop where
  running : engine.status = .running
  unspent : ∀ budget ∈ engine.budget, engine.steps < budget
  decoded : ∃ byte, Address.ofByte byte = address ∧
    Instr.decode (engine.machine.cell engine.machine.pc) = .ok (.store source byte)

variable {engine : Engine} {source : Register} {address : Address}

/-! ### One step -/

/-- A `STORE` puts the lowest 16 bits of its register into its cell. -/
theorem cell_step_of_stores (stores : engine.Stores source address) :
    ((engine.step.1.machine.cell address).toNat : Int) =
      (engine.machine.register source).toInt % 2 ^ 16 := by
  obtain ⟨byte, rfl, decoded⟩ := stores.decoded
  obtain ⟨continuation, means, -⟩ :=
    (performs_of_executes stores.running ⟨stores.unspent, decoded, rfl⟩).means
  cases means with
  | store word => exact word

/-- What is not a `STORE` to a cell leaves the cell as it was. -/
theorem cell_step_of_not_stores (kept : ∀ source, ¬ engine.Stores source address) :
    engine.step.1.machine.cell address = engine.machine.cell address := by
  by_cases running : engine.status = .running
  · rcases refuses_or_executes engine with ⟨fault, refuses⟩ | ⟨instr, next, effect, executes⟩
    · rw [step_of_refuses running refuses]
      rfl
    · obtain ⟨continuation, means, -⟩ := (performs_of_executes running executes).means
      cases means with
      | @store source byte word others =>
        refine others.cells address fun same => kept source ?_
        exact ⟨running, executes.unspent, byte, Eq.symm same, executes.decoded⟩
      | load _ others => exact others.cells address id
      | arithmetic _ others => exact others.cells address id
      | jump others => exact others.cells address id
      | taken _ others => exact others.cells address id
      | untaken _ others => exact others.cells address id
      | halt others => exact others.cells address id
  · rw [step_of_not_running running]

/-- A `STORE` reaches the first 256 cells only. -/
theorem Stores.lt (stores : engine.Stores source address) : address.val < 256 := by
  obtain ⟨byte, rfl, -⟩ := stores.decoded
  exact byte.toNat_lt

/-! ### Any number of steps -/

/-- What a memory cell holds after a number of steps: the lowest 16 bits of the register that the
last `STORE` there has stored, as it was then; or what it held at the start if there was none. -/
inductive Holds (start : Engine) (count : Nat) (address : Address) : Word → Prop
  | initial
      (never : ∀ index < count, ∀ source, ¬ (start.after index).Stores source address) :
      Holds start count address (start.machine.cell address)
  | stored {last : Nat} {source : Register} {word : Word} (before : last < count)
      (stores : (start.after last).Stores source address)
      (latest : ∀ index, last < index → index < count →
        ∀ other, ¬ (start.after index).Stores other address)
      (low : (word.toNat : Int) = ((start.after last).machine.register source).toInt % 2 ^ 16) :
      Holds start count address word

variable {start : Engine} {count : Nat}

/-- A step that does not store to a cell leaves it what it holds. -/
theorem Holds.succ {word : Word} (holds : start.Holds count address word)
    (kept : ∀ source, ¬ (start.after count).Stores source address) :
    start.Holds (count + 1) address word := by
  cases holds with
  | initial never =>
    refine .initial fun index before source stores => ?_
    rcases Nat.lt_succ_iff_lt_or_eq.mp before with before | rfl
    · exact never index before source stores
    · exact kept source stores
  | stored before stores latest low =>
    refine .stored (Nat.lt_succ_of_lt before) stores ?_ low
    intro index later inside source stores
    rcases Nat.lt_succ_iff_lt_or_eq.mp inside with before | rfl
    · exact latest index later before source stores
    · exact kept source stores

/-- Every memory cell holds what was stored there last. -/
theorem holds_after (start : Engine) (count : Nat) (address : Address) :
    start.Holds count address ((start.after count).machine.cell address) := by
  induction count with
  | zero => exact .initial nofun
  | succ count ih =>
    rw [after_succ]
    by_cases stored : ∃ source, (start.after count).Stores source address
    · obtain ⟨source, stores⟩ := stored
      refine .stored (Nat.lt_succ_self count) stores ?_ (cell_step_of_stores stores)
      intro index later before
      omega
    · have kept : ∀ source, ¬ (start.after count).Stores source address :=
        fun source stores => stored ⟨source, stores⟩
      rw [cell_step_of_not_stores kept]
      exact ih.succ kept

/-! ### Cells out of reach -/

/-- A cell that no `STORE` reaches is as it was at the start. -/
theorem cell_after_of_le (start : Engine) (count : Nat) (high : 256 ≤ address.val) :
    (start.after count).machine.cell address = start.machine.cell address := by
  have holds := start.holds_after count address
  generalize (start.after count).machine.cell address = word at holds
  cases holds with
  | initial => rfl
  | stored _ stores => exact absurd stores.lt (Nat.not_lt_of_le high)

/-- The instructions that a step reports are those that it executes. -/
theorem Transition.executes_of_mem {after : Engine} {notices : List Notice} {event : Event}
    (transition : Transition engine after notices) (reported : event ∈ instructionEvents notices) :
    ∃ instr next effect, engine.Executes instr next effect ∧ event = engine.event instr effect := by
  cases transition with
  | refuse => cases reported
  | halt executes => exact ⟨_, _, _, executes, List.mem_singleton.mp reported⟩
  | jump executes => exact ⟨_, _, _, executes, List.mem_singleton.mp reported⟩
  | pass executes => exact ⟨_, _, _, executes, List.mem_singleton.mp reported⟩
  | overflow executes => exact ⟨_, _, _, executes, List.mem_singleton.mp reported⟩

/-- The instructions that are reported are those that the steps execute. -/
theorem exists_executes_of_mem_reports {event : Event}
    (reported : event ∈ instructionEvents (start.reports count)) :
    ∃ index instr next effect, (start.after index).Executes instr next effect ∧
      event = (start.after index).event instr effect := by
  induction count with
  | zero => cases reported
  | succ count ih =>
    rw [reports_succ, instructionEvents_append, List.mem_append] at reported
    rcases reported with earlier | latest
    · exact ih earlier
    · by_cases running : (start.after count).status = .running
      · exact ⟨count, (transition_step running).executes_of_mem latest⟩
      · rw [step_of_not_running running] at latest
        cases latest

/-- The cells from 256 on are those at the start, and so are the words that executed instructions
were fetched from there. -/
structure Intact (start : Machine) (engine : Engine) (notices : List Notice) : Prop where
  cells : ∀ address : Address, 256 ≤ address.val →
    engine.machine.cell address = start.cell address
  fetched : ∀ event ∈ instructionEvents notices, ∃ address : Address,
    event.pc = address.toWord ∧ Instr.decode event.word = .ok event.instr ∧
      (256 ≤ address.val → event.word = start.cell address)

theorem intact_after (start : Engine) (count : Nat) :
    Intact start.machine (start.after count) (start.reports count) := by
  refine ⟨fun address high => start.cell_after_of_le count high, fun event reported => ?_⟩
  obtain ⟨index, instr, next, effect, executes, rfl⟩ := exists_executes_of_mem_reports reported
  exact ⟨_, rfl, executes.decoded, start.cell_after_of_le index⟩

/-- **Only executed `STORE`s change memory, and only its first 256 cells**: after any number of
steps every cell holds what was stored there last, and the cells out of reach hold what was loaded
there, also when a program overwrites itself. -/
theorem holds_and_intact :
    (∀ (start : Engine) (count : Nat),
      (∀ address, start.Holds count address ((start.after count).machine.cell address)) ∧
        Intact start.machine (start.after count) (start.reports count)) ∧
    ∀ (words : List Word) (budget : Option Nat) (count : Nat) (address : Address),
      words.length ≤ 4096 → 256 ≤ address.val →
      ((new words budget).after count).machine.cell address = words[address.val]?.getD 0 := by
  refine ⟨fun start count => ⟨start.holds_after count, start.intact_after count⟩,
    fun words budget count address fits high => ?_⟩
  rw [cell_after_of_le _ _ high, cell_new fits]

/-- The first instruction stores the word of a `STORE` in the next cell, where it is executed. The
cell of either holds what it has stored, all that is out of reach is as it was, and a program of
these words leaves it zero. -/
theorem holds_stored_by_stored :
    let program := (Machine.fresh.setCell 0 0x2101).setCell 2 0xF000
    let prepared := (program.setRegister ⟨1⟩ 0x2305).setRegister ⟨3⟩ (-1)
    let start := ofMachine prepared none
    (start.after 3).status = .halted ∧ start.Holds 3 1 0x2305 ∧ start.Holds 3 5 0xFFFF ∧
      Intact prepared (start.after 3) (start.reports 3) ∧
      ((new [0x2101, 0, 0xF000] none).after 3).machine.cell 256 = 0 := by
  intro program prepared start
  obtain ⟨stores, loaded⟩ := holds_and_intact
  obtain ⟨holds, intact⟩ := stores start 3
  have created : (start.after 3).machine.cell 1 = 0x2305 := by decide +kernel
  have stored : (start.after 3).machine.cell 5 = 0xFFFF := by decide +kernel
  exact ⟨by decide +kernel, created ▸ holds 1, stored ▸ holds 5, intact,
    loaded [0x2101, 0, 0xF000] none 3 256 (by decide) (by decide)⟩

end Engine

end Asm16
