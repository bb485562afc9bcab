/-
**The reports of a run can be replayed.**

A reader who knows the machine at the start and the reports, and nothing else of the run, ends up
with the machine at its end:

* `Replay` — memory, registers and program counter as known from the reports.
* `Replay.Follows` — every event says of the machine before it what the events up to then left.
* `Engine.Traced` — the events are numbered, can be replayed to the machine that the engine has, and
  are followed by a fault exactly when the engine has faulted.
* `Engine.traced_after` — this is so after any number of steps.
-/

import Asm16.Proofs.Engine.Origin
import Mathlib.Data.List.Induction

namespace Asm16

/-- The executed instruction that a notice reports. -/
def Notice.event? : Notice → Option Event
  | executed event => some event
  | faulted .. => none

/-- The executed instructions among the notices. -/
def instructionEvents (notices : List Notice) : List Event :=
  notices.filterMap Notice.event?

theorem instructionEvents_append (notices others : List Notice) :
    instructionEvents (notices ++ others) = instructionEvents notices ++ instructionEvents others :=
  List.filterMap_append

/-- A machine as it is known from reports. Its program counter is past the end of memory after an
instruction in the last cell. -/
structure Replay where
  memory : Vector Word 4096
  registers : Vector Int32 16
  pc : Nat

namespace Replay

/-- What is known of a machine at the start. -/
def ofMachine (machine : Machine) : Replay where
  memory := machine.memory
  registers := machine.registers
  pc := machine.pc.val

/-- What is known after an effect: the value after it is written, a jump continues at its target, a
`HALT` nowhere, and all else at the next address. -/
def apply (replay : Replay) : Effect → Replay
  | .register changed _ after => { replay with
      registers := replay.registers.setIfInBounds changed.index after, pc := replay.pc + 1 }
  | .memory address _ after => { replay with
      memory := replay.memory.setIfInBounds address.toNat after, pc := replay.pc + 1 }
  | .jump target => { replay with pc := target.toNat }
  | .notTaken => { replay with pc := replay.pc + 1 }
  | .halt => replay

/-- The value before an effect is the known one. -/
def Recalls (replay : Replay) : Effect → Prop
  | .register changed before _ => replay.registers.get changed.index = before
  | .memory address before _ => replay.memory[address.toNat]? = some before
  | _ => True

/-- An event is about the machine that is known. -/
structure Agrees (replay : Replay) (event : Event) : Prop where
  pc : event.pc.toNat = replay.pc
  word : replay.memory[replay.pc]? = some event.word
  decoded : Instr.decode event.word = .ok event.instr
  before : replay.Recalls event.effect

/-- What is known after events. -/
def after (replay : Replay) (events : List Event) : Replay :=
  events.foldl (fun known event => known.apply event.effect) replay

/-- Every event is about the machine that is known after the events before it. -/
def Follows (replay : Replay) : List Event → Prop
  | [] => True
  | event :: rest => replay.Agrees event ∧ (replay.apply event.effect).Follows rest

theorem after_append (replay : Replay) (first second : List Event) :
    replay.after (first ++ second) = (replay.after first).after second :=
  List.foldl_append

theorem follows_append {replay : Replay} {first second : List Event} :
    replay.Follows (first ++ second) ↔
      replay.Follows first ∧ (replay.after first).Follows second := by
  induction first generalizing replay with
  | nil => exact ⟨fun follows => ⟨trivial, follows⟩, fun follows => follows.2⟩
  | cons event rest ih =>
    show replay.Agrees event ∧ (replay.apply event.effect).Follows (rest ++ second) ↔
      (replay.Agrees event ∧ (replay.apply event.effect).Follows rest) ∧
        ((replay.apply event.effect).after rest).Follows second
    rw [ih, and_assoc]

end Replay

/-! ### The latest stored word -/

/-- The word that an effect stores at an address. -/
def Effect.stored? (address : Word) : Effect → Option Word
  | memory target _ after => if target = address then some after else none
  | _ => none

/-- The word that the last of the events to store at an address has stored there. -/
def lastStored (address : Word) (events : List Event) : Option Word :=
  (events.filterMap fun event => event.effect.stored? address).getLast?

theorem lastStored_concat (address : Word) (events : List Event) (event : Event) :
    lastStored address (events ++ [event]) =
      (event.effect.stored? address).or (lastStored address events) := by
  unfold lastStored
  rw [List.filterMap_append, List.getLast?_append, List.filterMap_cons, List.filterMap_nil]
  cases event.effect.stored? address <;> rfl

namespace Replay

theorem memory_apply (replay : Replay) (effect : Effect) (address : Word) :
    (replay.apply effect).memory[address.toNat]? =
      replay.memory[address.toNat]?.map ((effect.stored? address).getD ·) := by
  cases effect with
  | memory target before after =>
    show (replay.memory.setIfInBounds target.toNat after)[address.toNat]? = _
    rw [Vector.getElem?_setIfInBounds]
    by_cases same : target = address
    · subst same
      simp only [Effect.stored?, if_true, Option.getD_some]
      by_cases bound : target.toNat < 4096
      · rw [if_pos bound, Vector.getElem?_eq_getElem bound]
        rfl
      · rw [if_neg bound, Vector.getElem?_eq_none (Nat.le_of_not_lt bound)]
        rfl
    · have apart : target.toNat ≠ address.toNat := fun equal => same (UInt16.toNat_inj.mp equal)
      rw [if_neg apart, Effect.stored?, if_neg same]
      simp
  | register => simp [apply, Effect.stored?]
  | jump => simp [apply, Effect.stored?]
  | notTaken => simp [apply, Effect.stored?]
  | halt => simp [apply, Effect.stored?]

/-- A memory cell holds the word that was stored there last, or else the one at the start. -/
theorem memory_after (replay : Replay) (events : List Event) (address : Word) :
    (replay.after events).memory[address.toNat]? =
      replay.memory[address.toNat]?.map ((lastStored address events).getD ·) := by
  induction events using List.reverseRecOn with
  | nil => simp [after, lastStored]
  | append_singleton events event ih =>
    rw [after_append, lastStored_concat]
    show ((replay.after events).apply event.effect).memory[address.toNat]? = _
    rw [memory_apply, ih, Option.map_map]
    cases event.effect.stored? address <;> rfl

end Replay

/-! ### Reports -/

/-- What an engine reports last: the fault that has ended its run, if one has. -/
def Engine.closing (engine : Engine) : List Notice :=
  match engine.status with
  | .faulted fault => [.faulted engine.machine.pc.toWord fault]
  | _ => []

/-- What is known from the reports is the machine of an engine, except that the program counter of
the engine does not leave memory. -/
structure Replay.Knows (replay : Replay) (engine : Engine) : Prop where
  memory : replay.memory = engine.machine.memory
  registers : replay.registers = engine.machine.registers
  pc : engine.status ≠ .faulted .programCounterOverflow → replay.pc = engine.machine.pc.val
  overflow : engine.status = .faulted .programCounterOverflow →
    replay.pc = 4096 ∧ engine.machine.pc.val = 4095

namespace Engine

/-- The notices of a run are its executed instructions, counted from one and about the machine that
the instructions before them left, and then its fault. -/
structure Recorded (start : Replay) (engine : Engine) (notices : List Notice) : Prop where
  reports : notices = (instructionEvents notices).map .executed ++ engine.closing
  numbered : (instructionEvents notices).map Event.step = List.range' 1 engine.steps
  follows : start.Follows (instructionEvents notices)
  knows : (start.after (instructionEvents notices)).Knows engine

/-- The notices of a run can be replayed: each instruction is also the word that was stored at its
address last, or else the one at the start. -/
structure Traced (start : Replay) (engine : Engine) (notices : List Notice) : Prop
    extends Recorded start engine notices where
  latest : ∀ earlier event later, instructionEvents notices = earlier ++ event :: later →
    start.memory[event.pc.toNat]?.map ((lastStored event.pc earlier).getD ·) = some event.word

variable {engine : Engine} {instr : Instr} {next : Machine} {effect : Effect}

theorem agrees_event (executes : engine.Executes instr next effect) :
    (Replay.ofMachine engine.machine).Agrees (engine.event instr effect) where
  pc := Address.toNat_toWord _
  word := Vector.getElem?_eq_getElem engine.machine.pc.isLt
  decoded := executes.decoded
  before := by
    have changes := Machine.changes_of_execute executes.executed
    show Replay.Recalls _ effect
    cases effect with
    | register => exact changes.1
    | memory =>
      obtain ⟨byte, rfl, rfl, -⟩ := changes
      show (engine.machine.memory)[_]? = _
      rw [Address.toNat_toWord]
      exact Vector.getElem?_eq_getElem (Address.ofByte byte).isLt
    | _ => trivial

theorem setIfInBounds_eq_set {α : Type} {size index : Nat} {values : Vector α size} {value : α}
    (inside : index < size) : values.setIfInBounds index value = values.set index value := by
  ext other bound
  rw [Vector.getElem_setIfInBounds, Vector.getElem_set]

/-- An instruction leads to the machine that its effect tells, at the next address. -/
theorem apply_of_passes {machine : Machine} (changes : effect.Changes machine next)
    (passes : effect.Passes) :
    (Replay.ofMachine machine).apply effect =
      { Replay.ofMachine next with pc := machine.pc.val + 1 } := by
  cases effect with
  | register changed before after =>
    obtain ⟨-, rfl⟩ := changes
    simp only [Replay.apply, Replay.ofMachine, setIfInBounds_eq_set changed.index.isLt]
    rfl
  | memory =>
    obtain ⟨byte, rfl, -, rfl⟩ := changes
    simp only [Replay.apply, Replay.ofMachine, Address.toNat_toWord,
      setIfInBounds_eq_set (Address.ofByte byte).isLt]
    rfl
  | notTaken => rw [show next = machine from changes]; rfl
  | jump => exact passes.elim
  | halt => exact passes.elim

theorem apply_of_not_passes {machine : Machine} (changes : effect.Changes machine next)
    (ends : ¬ effect.Passes) : (Replay.ofMachine machine).apply effect = .ofMachine next := by
  cases effect with
  | jump =>
    obtain ⟨address, rfl, rfl⟩ := changes
    simp only [Replay.apply, Replay.ofMachine, Address.toNat_toWord]
  | halt => rw [show next = machine from changes]; rfl
  | _ => exact absurd trivial ends

variable {start : Replay} {seen : List Notice}

theorem knows_ofMachine (inside : engine.status ≠ .faulted .programCounterOverflow) :
    (Replay.ofMachine engine.machine).Knows engine :=
  ⟨rfl, rfl, fun _ => rfl, fun overflow => absurd overflow inside⟩

theorem inside_of_running (running : engine.status = .running) :
    engine.status ≠ .faulted .programCounterOverflow := by
  rw [running]
  nofun

theorem Recorded.eq_ofMachine (recorded : Recorded start engine seen)
    (running : engine.status = .running) :
    start.after (instructionEvents seen) = .ofMachine engine.machine := by
  obtain ⟨memory, registers, pc, -⟩ := recorded.knows
  have same := pc (inside_of_running running)
  cases known : start.after (instructionEvents seen)
  rw [known] at memory registers same
  cases memory
  cases registers
  cases same
  rfl

theorem closing_of_running (running : engine.status = .running) : engine.closing = [] := by
  unfold closing
  rw [running]

/-- One more executed instruction, and the fault after it if there is one, follow the notices. -/
theorem Recorded.concat (recorded : Recorded start engine seen) (running : engine.status = .running)
    (executes : engine.Executes instr next effect) {after : Engine}
    (steps : after.steps = engine.steps + 1)
    (knows : ((Replay.ofMachine engine.machine).apply effect).Knows after) :
    Recorded start after (seen ++ .executed (engine.event instr effect) :: after.closing) := by
  have events : instructionEvents (seen ++ .executed (engine.event instr effect) :: after.closing) =
      instructionEvents seen ++ [engine.event instr effect] := by
    rw [instructionEvents_append]
    refine congrArg _ ?_
    unfold closing
    split <;> rfl
  have reports := recorded.reports
  rw [closing_of_running running, List.append_nil] at reports
  constructor
  · rw [events, List.map_append, List.append_assoc, ← reports]
    rfl
  · rw [events, List.map_append, recorded.numbered, steps, List.range'_concat, Nat.one_mul,
      Nat.add_comm 1]
    rfl
  · rw [events, Replay.follows_append, recorded.eq_ofMachine running]
    exact ⟨recorded.follows, agrees_event executes, trivial⟩
  · rw [events, Replay.after_append, recorded.eq_ofMachine running]
    exact knows

/-- One more executed instruction follows the notices of a run that goes on after it. -/
theorem Recorded.concat_of_running (recorded : Recorded start engine seen)
    (running : engine.status = .running) (executes : engine.Executes instr next effect)
    {after : Engine} (steps : after.steps = engine.steps + 1) (goes : after.status = .running)
    (machine : (Replay.ofMachine engine.machine).apply effect = .ofMachine after.machine) :
    Recorded start after (seen ++ [.executed (engine.event instr effect)]) := by
  have knows : ((Replay.ofMachine engine.machine).apply effect).Knows after := by
    rw [machine]
    exact knows_ofMachine (inside_of_running goes)
  have longer := recorded.concat running executes steps knows
  rwa [closing_of_running goes] at longer

/-- The notices of one more step follow the notices. -/
theorem recorded_of_transition {after : Engine} {notices : List Notice}
    (recorded : Recorded start engine seen) (running : engine.status = .running)
    (transition : Transition engine after notices) : Recorded start after (seen ++ notices) := by
  cases transition with
  | @refuse fault refuses =>
    have reports := recorded.reports
    rw [closing_of_running running, List.append_nil] at reports
    have events : instructionEvents (seen ++ [.faulted engine.machine.pc.toWord fault]) =
        instructionEvents seen := by
      rw [instructionEvents_append]
      exact List.append_nil _
    have inside : fault ≠ .programCounterOverflow := by cases refuses <;> nofun
    constructor
    · rw [events, ← reports]
      rfl
    · rw [events]
      exact recorded.numbered
    · rw [events]
      exact recorded.follows
    · rw [events, recorded.eq_ofMachine running]
      exact ⟨rfl, rfl, fun _ => rfl, fun overflow => absurd (Status.faulted.inj overflow) inside⟩
  | halt executes =>
    refine recorded.concat running executes rfl ?_
    rw [apply_of_not_passes (Machine.changes_of_execute executes.executed) id]
    exact ⟨rfl, rfl, fun _ => rfl, nofun⟩
  | jump executes =>
    refine recorded.concat_of_running running executes rfl running ?_
    exact apply_of_not_passes (Machine.changes_of_execute executes.executed) id
  | pass executes passes following =>
    refine recorded.concat_of_running running executes rfl running ?_
    have changes := Machine.changes_of_execute executes.executed
    rw [apply_of_passes changes passes, ← changes.pc_of_passes passes, ← following]
    rfl
  | overflow executes passes last =>
    refine recorded.concat running executes rfl ?_
    have changes := Machine.changes_of_execute executes.executed
    rw [apply_of_passes changes passes, ← changes.pc_of_passes passes, last]
    exact ⟨rfl, rfl, fun other => absurd rfl other, fun _ => ⟨rfl, last⟩⟩

theorem recorded_start (machine : Machine) (budget : Option Nat) :
    Recorded (.ofMachine machine) (ofMachine machine budget) [] where
  reports := rfl
  numbered := rfl
  follows := trivial
  knows := ⟨rfl, rfl, fun _ => rfl, nofun⟩

theorem recorded_after (machine : Machine) (budget : Option Nat) (count : Nat) :
    Recorded (.ofMachine machine) ((ofMachine machine budget).after count)
      ((ofMachine machine budget).reports count) :=
  run_invariant (recorded_start machine budget) recorded_of_transition count

theorem Recorded.traced (recorded : Recorded start engine seen) : Traced start engine seen := by
  refine ⟨recorded, fun earlier event later split => ?_⟩
  have follows := recorded.follows
  rw [split, Replay.follows_append] at follows
  have agrees := follows.2.1
  rw [← Replay.memory_after, agrees.pc]
  exact agrees.word

/-- **The reports of a run can be replayed**, whatever it started with and however far it got. -/
theorem traced_after {origin : Origin} (fits : origin.Fits) (budget : Option Nat) (count : Nat) :
    Traced (.ofMachine (origin.engine budget).machine) ((origin.engine budget).after count)
      ((origin.engine budget).reports count) := by
  obtain ⟨machine, same⟩ := Origin.exists_engine_eq_ofMachine fits budget
  rw [same]
  exact (recorded_after machine budget count).traced

/-- A program that stores a `HALT` in its next cell can be replayed. -/
theorem traced_self_modification :
    let origin := Origin.program [0x11F0, 0x1210, 0x5112, 0x5112, 0x2105]
    origin.Fits ∧ Traced (.ofMachine (origin.engine none).machine)
      ((origin.engine none).after 6) ((origin.engine none).reports 6) := by
  intro origin
  have fits : origin.Fits := show 5 ≤ 4096 by decide
  exact ⟨fits, traced_after fits none 6⟩

end Engine

end Asm16
