/-
**A counted loop multiplies.**

The source `countedLoop` adds one register to another until a third one has been counted down to
zero, and halts:

* `Machine.HoldsLoop` — memory holds the loop and the `HALT` after it.
* `Machine.round` — the registers after one round of the loop, which takes four instructions
  (`Engine.after_round`).
* `Machine.Rounds` — what a number of rounds has done to a machine; by `Engine.exists_after_rounds`
  a run without a budget comes that far, as long as the counter is not zero before.
* `Engine.Multiplies` — how a run of the loop within a budget ends.
* `multiplies_countedLoop` — so ends every run of the assembled source, whatever the registers and
  the budget are.
-/

import Asm16.Assembly
import Asm16.Proofs.Engine.Budget
import Asm16.Proofs.Engine.Table

namespace Asm16

/-- Adds `R4` to `R3` and takes `R2` from `R1`, until `R1` is zero. -/
def countedLoop : String :=
  "loop:\nJMPZ R1, done\nADD R3, R3, R4\nSUB R1, R1, R2\nJMP loop\ndone:\nHALT"

/-- The instructions of the loop. -/
def countedInstrs : List Instr :=
  [.branch .zero ⟨1⟩ 4, .arithmetic .add ⟨3⟩ ⟨3⟩ ⟨4⟩, .arithmetic .sub ⟨1⟩ ⟨1⟩ ⟨2⟩,
    .jump (.ofLowBits 0), .halt]

/-! ### Steps without a budget -/

namespace Engine

/-- A run without a budget goes on, and has executed a number of instructions. -/
def unlimited (machine : Machine) (steps : Nat) : Engine where
  machine
  status := .running
  budget := none
  steps

variable {machine next : Machine} {steps : Nat} {instr : Instr} {effect : Effect}

theorem executes_unlimited (decoded : Instr.decode (machine.cell machine.pc) = .ok instr)
    (executed : machine.execute instr = .ok effect next) (steps : Nat) :
    (unlimited machine steps).Executes instr next effect :=
  ⟨nofun, decoded, executed⟩

/-- After an instruction that does not jump the run goes on at the next address. -/
theorem step_unlimited_of_passes (decoded : Instr.decode (machine.cell machine.pc) = .ok instr)
    (executed : machine.execute instr = .ok effect next) (passes : effect.Passes) {pc : Address}
    (following : pc.val = machine.pc.val + 1) :
    (unlimited machine steps).step.1 = unlimited { next with pc } (steps + 1) := by
  have kept := (Machine.changes_of_execute executed).pc_of_passes passes
  have advanced : next.advance? = some { next with pc } := by
    have room : machine.pc.val + 1 < 4096 := following ▸ pc.isLt
    have same : (⟨machine.pc.val + 1, room⟩ : Address) = pc := Fin.ext following.symm
    rw [Machine.advance?, Address.ofNat?, kept, dif_pos room, same]
    rfl
  rw [step_of_executes rfl (executes_unlimited decoded executed steps) rfl,
    proceed_of_passes passes]
  simp only [advanced]
  rfl

theorem step_unlimited_of_jump {target : Word}
    (decoded : Instr.decode (machine.cell machine.pc) = .ok instr)
    (executed : machine.execute instr = .ok (.jump target) next) :
    (unlimited machine steps).step.1 = unlimited next (steps + 1) := by
  rw [step_of_executes rfl (executes_unlimited decoded executed steps) rfl]
  rfl

theorem step_unlimited_of_halt (decoded : Instr.decode (machine.cell machine.pc) = .ok .halt) :
    (unlimited machine steps).step.1 =
      { unlimited machine (steps + 1) with status := .halted } := by
  rw [step_of_executes rfl (executes_unlimited decoded rfl steps) rfl]
  rfl

end Engine

/-! ### Rounds of the loop -/

namespace Machine

/-- Memory begins with the words of the loop. -/
def HoldsLoop (machine : Machine) : Prop :=
  ∀ (address : Address) (instr : Instr), countedInstrs[address.val]? = some instr →
    Instr.decode (machine.cell address) = .ok instr

/-- The machine after one round of the loop. -/
def round (machine : Machine) : Machine :=
  (machine.setRegister ⟨3⟩ (machine.register ⟨3⟩ + machine.register ⟨4⟩)).setRegister ⟨1⟩
    (machine.register ⟨1⟩ - machine.register ⟨2⟩)

/-- What a number of rounds has done to a machine that counts by one. -/
structure Rounds (before : Machine) (count : Nat) (after : Machine) : Prop where
  counter : after.register ⟨1⟩ = before.register ⟨1⟩ - Int32.ofNat count
  total : after.register ⟨3⟩ = before.register ⟨3⟩ + Int32.ofNat count * before.register ⟨4⟩
  others : before.SameBut after {⟨1⟩, ⟨3⟩} ∅
  pc : after.pc = before.pc

variable {machine before after : Machine} {count : Nat}

theorem SameBut.cell {registers : Set Register} (same : before.SameBut after registers ∅)
    (address : Address) : after.cell address = before.cell address :=
  same.cells address (Set.notMem_empty address)

theorem HoldsLoop.of_cell (holds : before.HoldsLoop)
    (same : ∀ address, after.cell address = before.cell address) : after.HoldsLoop :=
  fun address instr member => (same address).symm ▸ holds address instr member

/-- The loop that has been loaded is in memory. -/
theorem holdsLoop_of_load {loaded : Machine}
    (load : machine.load (countedInstrs.map Instr.encode) = .ok () loaded) : loaded.HoldsLoop := by
  intro address instr member
  rw [cell_of_load load, List.getElem?_map, member]
  exact Instr.decode_encode instr

theorem rounds_zero (machine : Machine) : machine.Rounds 0 machine where
  counter := by
    show _ = machine.register ⟨1⟩ - 0
    rw [Int32.sub_zero]
  total := by
    show _ = machine.register ⟨3⟩ + 0 * machine.register ⟨4⟩
    rw [Int32.zero_mul, Int32.add_zero]
  others := ⟨fun _ _ => rfl, fun _ _ => rfl⟩
  pc := rfl

theorem register_round (machine : Machine) (register : Register) : machine.round.register register =
    if register = ⟨1⟩ then machine.register ⟨1⟩ - machine.register ⟨2⟩
    else if register = ⟨3⟩ then machine.register ⟨3⟩ + machine.register ⟨4⟩
    else machine.register register := by
  simp only [round, register_setRegister, eq_comm]

theorem Rounds.succ (one : before.register ⟨2⟩ = 1) (rounds : before.Rounds count after) :
    before.Rounds (count + 1) after.round where
  counter := by
    have step : after.register ⟨2⟩ = 1 :=
      (rounds.others.registers ⟨2⟩ (by decide)).trans one
    rw [register_round, if_pos rfl, step, rounds.counter, Int32.ofNat_add]
    grind
  total := by
    have summand := rounds.others.registers ⟨4⟩ (by decide)
    rw [register_round, if_neg (by decide), if_pos rfl, summand, rounds.total, Int32.ofNat_add]
    grind
  others := by
    refine ⟨fun register other => ?_, fun address _ => rounds.others.cell address⟩
    rw [Set.mem_insert_iff, Set.mem_singleton_iff, not_or] at other
    rw [register_round, if_neg other.1, if_neg other.2]
    exact rounds.others.registers register (by simpa using other)
  pc := rounds.pc

end Machine

namespace Engine

variable {machine start : Machine} {steps count : Nat}

/-- **A round of the loop** takes four instructions and leads back to its beginning. -/
theorem after_round (holds : machine.HoldsLoop) (begins : machine.pc = 0)
    (counts : machine.register ⟨1⟩ ≠ 0) :
    (unlimited machine steps).after 4 = unlimited machine.round (steps + 4) := by
  have untaken : machine.execute (.branch .zero ⟨1⟩ 4) = .ok .notTaken machine := by
    rw [Machine.execute_branch, if_neg (by simpa [Condition.holds] using counts)]
  have test : (unlimited machine steps).step.1 = unlimited { machine with pc := 1 } (steps + 1) :=
    step_unlimited_of_passes (begins ▸ holds 0 _ rfl) untaken trivial (by rw [begins]; rfl)
  let summed := machine.setRegister ⟨3⟩ (machine.register ⟨3⟩ + machine.register ⟨4⟩)
  have add : Instr.decode (Machine.cell { machine with pc := 1 } 1) =
      .ok (.arithmetic .add ⟨3⟩ ⟨3⟩ ⟨4⟩) := holds 1 _ rfl
  have sum : (unlimited { machine with pc := 1 } (steps + 1)).step.1 =
      unlimited { summed with pc := 2 } (steps + 2) :=
    step_unlimited_of_passes add (Machine.execute_arithmetic_of_some rfl) trivial rfl
  have operands : summed.register ⟨1⟩ - summed.register ⟨2⟩ =
      machine.register ⟨1⟩ - machine.register ⟨2⟩ := by
    rw [Machine.register_setRegister, Machine.register_setRegister, if_neg (by decide),
      if_neg (by decide)]
  have subtract : Instr.decode (Machine.cell { summed with pc := 2 } 2) =
      .ok (.arithmetic .sub ⟨1⟩ ⟨1⟩ ⟨2⟩) := holds 2 _ rfl
  have count : (unlimited { summed with pc := 2 } (steps + 2)).step.1 =
      unlimited { machine.round with pc := 3 } (steps + 3) := by
    unfold Machine.round
    rw [← operands]
    exact step_unlimited_of_passes subtract (Machine.execute_arithmetic_of_some rfl) trivial rfl
  have jump : Instr.decode (Machine.cell { machine.round with pc := 3 } 3) =
      .ok (.jump (.ofLowBits 0)) := holds 3 _ rfl
  have back : (unlimited { machine.round with pc := 3 } (steps + 3)).step.1 =
      unlimited { machine.round with pc := 0 } (steps + 4) := step_unlimited_of_jump jump rfl
  have same : { machine.round with pc := 0 } = machine.round :=
    congrArg (fun pc => { machine.round with pc }) begins.symm
  rw [after, after, after, after, after, test, sum, count, back, same]

/-- A 32-bit integer is what it is congruent to modulo `2 ^ 32`. -/
theorem ofNat_toNat_emod (number : Int32) :
    Int32.ofNat (number.toInt % 2 ^ 32).toNat = number := by
  rw [← Int32.toInt_inj, Int32.toInt_ofNat', Int.toNat_of_nonneg (Int.emod_nonneg _ (by decide))]
  exact (Int.emod_bmod _ _).trans (Int32.toInt_bmod number)

/-- Fewer than that many times one is not all of it. -/
theorem sub_ofNat_ne_zero {number : Int32} (below : count < (number.toInt % 2 ^ 32).toNat) :
    number - Int32.ofNat count ≠ 0 := by
  intro zero
  have same : number = Int32.ofNat count := by grind
  have congruent : (Int32.ofNat count).toInt % 2 ^ 32 = count % 2 ^ 32 := by
    rw [Int32.toInt_ofNat']
    exact Int.bmod_emod
  rw [same, congruent] at below
  omega

/-- A run without a budget goes on round by round until the counter is zero. -/
theorem exists_after_rounds (holds : start.HoldsLoop) (begins : start.pc = 0)
    (one : start.register ⟨2⟩ = 1)
    (within : count ≤ ((start.register ⟨1⟩).toInt % 2 ^ 32).toNat) :
    ∃ machine, (unlimited start 0).after (4 * count) = unlimited machine (4 * count) ∧
      start.Rounds count machine := by
  induction count with
  | zero => exact ⟨start, rfl, start.rounds_zero⟩
  | succ count ih =>
    obtain ⟨machine, reached, rounds⟩ := ih (Nat.le_of_succ_le within)
    have counts : machine.register ⟨1⟩ ≠ 0 := by
      rw [rounds.counter]
      exact sub_ofNat_ne_zero within
    refine ⟨machine.round, ?_, rounds.succ one⟩
    rw [Nat.mul_succ, after_add, reached]
    exact after_round (holds.of_cell rounds.others.cell) (rounds.pc.trans begins) counts

/-! ### The end of the loop -/

/-- When the counter is zero, two more instructions end the run at the `HALT`. -/
theorem after_two (holds : machine.HoldsLoop) (begins : machine.pc = 0)
    (counted : machine.register ⟨1⟩ = 0) : (unlimited machine steps).after 2 =
      { unlimited { machine with pc := 4 } (steps + 2) with status := .halted } := by
  have taken : machine.execute (.branch .zero ⟨1⟩ 4) = machine.goto 4 := by
    rw [Machine.execute_branch, if_pos (by simpa [Condition.holds] using counted)]
    rfl
  have test : (unlimited machine steps).step.1 = unlimited { machine with pc := 4 } (steps + 1) :=
    step_unlimited_of_jump (begins ▸ holds 0 _ rfl) taken
  have halt : Instr.decode (Machine.cell { machine with pc := 4 } 4) = .ok .halt := holds 4 _ rfl
  rw [after, after, after, test]
  exact step_unlimited_of_halt halt

/-- Adding a number over and over is adding a multiple of it, which wraps once. -/
theorem wrapsTo_add_mul (total summand : Int32) (count : Nat) :
    WrapsTo (total.toInt + count * summand.toInt) (total + Int32.ofNat count * summand) := by
  refine wrapsTo_of_toInt_eq ?_
  rw [Int32.toInt_add, Int32.toInt_mul, Int32.toInt_ofNat', show Int32.size = 2 ^ 32 from rfl,
    Int.bmod_mul_bmod, Int.add_bmod_bmod]

/-- What the loop leaves after a number of rounds: four instructions executed for each round and two
more at the end, a counter of zero, the exact sum as it wraps, and everything else as it was. -/
structure Multiplied (start : Machine) (rounds : Nat) (sum : Int) (final : Engine) : Prop where
  steps : final.steps = 4 * rounds + 2
  counter : final.machine.register ⟨1⟩ = 0
  total : WrapsTo sum (final.machine.register ⟨3⟩)
  pc : final.machine.pc = 4 ∧ Instr.decode (final.machine.cell 4) = .ok .halt
  others : start.SameBut final.machine {⟨1⟩, ⟨3⟩} ∅

/-- How a run of the loop within a budget ends. -/
structure Multiplies (start : Machine) (rounds : Nat) (sum : Int) (limit : Nat)
    (final : Engine) : Prop where
  halts : final.status = .halted ↔ 4 * rounds + 2 ≤ limit
  multiplied : final.status = .halted → Multiplied start rounds sum final
  exceeds : limit < 4 * rounds + 2 →
    final.status = .faulted (.stepBudgetExceeded limit) ∧ final.steps = limit

/-- Without a budget the run halts after all its rounds. -/
theorem exists_multiplied (holds : start.HoldsLoop) (begins : start.pc = 0)
    (one : start.register ⟨2⟩ = 1) :
    let rounds : Nat := ((start.register ⟨1⟩).toInt % 2 ^ 32).toNat
    let sum := (start.register ⟨3⟩).toInt + rounds * (start.register ⟨4⟩).toInt
    ∃ final, (ofMachine start none).after (4 * rounds + 2) = final ∧ final.status = .halted ∧
      Multiplied start rounds sum final := by
  intro rounds sum
  obtain ⟨machine, reached, after⟩ := exists_after_rounds holds begins one (Nat.le_refl rounds)
  have holdsAfter := holds.of_cell after.others.cell
  have counted : machine.register ⟨1⟩ = 0 := by
    rw [after.counter, ofNat_toNat_emod, Int32.sub_self]
  refine ⟨_, rfl, ?_⟩
  rw [after_add, show ofMachine start none = unlimited start 0 from rfl, reached,
    after_two holdsAfter (after.pc.trans begins) counted]
  refine ⟨rfl, rfl, counted, ?_, ⟨rfl, holdsAfter 4 _ rfl⟩, after.others.registers,
    after.others.cells⟩
  show WrapsTo _ (machine.register ⟨3⟩)
  rw [after.total]
  exact wrapsTo_add_mul _ _ _

/-- A run of the loop halts if its budget allows for all rounds, and otherwise uses it up. -/
theorem exists_multiplies (holds : start.HoldsLoop) (begins : start.pc = 0)
    (one : start.register ⟨2⟩ = 1) (limit : Nat) :
    let rounds : Nat := ((start.register ⟨1⟩).toInt % 2 ^ 32).toNat
    let sum := (start.register ⟨3⟩).toInt + rounds * (start.register ⟨4⟩).toInt
    ∃ final notices, (ofMachine start (some limit)).RunsTo final notices ∧
      Multiplies start rounds sum limit final := by
  intro rounds sum
  obtain ⟨ended, reached, halted, multiplied⟩ := exists_multiplied holds begins one
  by_cases enough : 4 * rounds + 2 ≤ limit
  · have same := (after_ofMachine_some start enough).1
    rw [reached] at same
    have stopped : ((ofMachine start (some limit)).after (4 * rounds + 2)).status ≠ .running := by
      rw [same]
      exact fun running => by cases halted.symm.trans running
    have ends : RunsTo _ (ended.rebased 0 (some limit)) _ :=
      same ▸ runsTo_of_stopped stopped (Nat.le_succ_of_le enough)
    obtain ⟨steps, counter, total, pc, others⟩ := multiplied
    exact ⟨_, _, ends, iff_of_true halted enough, fun _ => ⟨steps, counter, total, pc, others⟩,
      fun short => absurd enough (Nat.not_le_of_lt short)⟩
  · have short := Nat.lt_of_not_le enough
    -- A run that is over has executed no more instructions than it has made steps.
    have running : ((ofMachine start none).after limit).status = .running := by
      by_contra stopped
      have early := steps_after_le (ofMachine start none) limit
      rw [← after_of_stopped stopped (Nat.le_of_lt short), reached, multiplied.steps] at early
      exact enough (early.trans_eq (Nat.zero_add _))
    have exhausted := exhausted_of_running running
    have status := congrArg Engine.status exhausted.faulted
    have goesOn : ((ofMachine start (some limit)).after (limit + 1)).status ≠ .halted :=
      fun halts => by cases status.symm.trans halts
    exact ⟨_, _, exhausted.ends, iff_of_false goesOn enough, fun halts => absurd halts goesOn,
      fun _ => ⟨status, exhausted.steps⟩⟩

end Engine

/-! ### The assembled loop -/

/-- A machine whose registers are set before a run of the loop: the counter, the number one, the
total and the summand, and any others. -/
def Machine.prepared (machine : Machine) (registers : Vector Int32 16)
    (counter total summand : Int32) : Machine :=
  ((({ machine with registers }.setRegister ⟨1⟩ counter).setRegister ⟨2⟩ 1).setRegister ⟨3⟩
    total).setRegister ⟨4⟩ summand

theorem Machine.register_prepared (machine : Machine) (registers : Vector Int32 16)
    (counter total summand : Int32) :
    let prepared := machine.prepared registers counter total summand
    prepared.register ⟨1⟩ = counter ∧ prepared.register ⟨2⟩ = 1 ∧ prepared.register ⟨3⟩ = total ∧
      prepared.register ⟨4⟩ = summand := by
  simp [prepared, register_setRegister]

/-- **The assembled loop multiplies.** From a fresh machine into which it has been loaded, whatever
its registers are set to, a run within any budget comes to its end. It makes as many rounds as the
counter says modulo `2 ^ 32`, so that a negative counter goes around. -/
theorem multiplies_countedLoop :
    ∃ program loaded, assemble countedLoop = .ok program ∧
      Machine.fresh.load program.words = .ok () loaded ∧
      ∀ (registers : Vector Int32 16) (counter total summand : Int32) (limit : Nat),
        let start := loaded.prepared registers counter total summand
        let rounds : Nat := (counter.toInt % 2 ^ 32).toNat
        ∃ final notices, (Engine.ofMachine start (some limit)).RunsTo final notices ∧
          Engine.Multiplies start rounds (total.toInt + rounds * summand.toInt) limit final := by
  have assembled : assemble countedLoop = .ok ⟨countedInstrs.map Instr.encode,
      ⟨[("loop", 0), ("done", 4)], by decide⟩⟩ := by decide +kernel
  have fits : (countedInstrs.map Instr.encode).length ≤ 4096 := by decide
  obtain ⟨loaded, load⟩ := Machine.fresh.exists_load fits
  refine ⟨_, loaded, assembled, load, fun registers counter total summand limit => ?_⟩
  have holds : (loaded.prepared registers counter total summand).HoldsLoop :=
    (Machine.holdsLoop_of_load load).of_cell fun _ => rfl
  obtain ⟨first, one, third, fourth⟩ := loaded.register_prepared registers counter total summand
  have ends := Engine.exists_multiplies holds (Machine.keeps_of_load load).1 one limit
  rwa [first, third, fourth] at ends

end Asm16
