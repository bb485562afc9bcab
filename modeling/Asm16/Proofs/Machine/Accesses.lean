/-
**A machine as a store that is accessed by any index.**

* `Access`, `Machine.perform` — an access from outside and what it does; `Access.InBounds` and
  `Access.refusal` say which accesses are refused and how.
* `Access.Sets`, `Access.Fills` — the accesses that put a value into a register, and those that put
  a word into a memory cell, alone or with a program.
* `Access.Last` — what a history of accesses has put somewhere last.
* `Machine.last_afterAll` — what each access puts or keeps is what there is after a history of them.
* `Access.Does` — what an access does after a history: what is read has been put there last, what
  is changed is changed alone, and a refused access changes nothing.
* `Machine.does_perform` — every access to a fresh machine, after any history, does that.
-/

import Asm16.Proofs.Engine.Origin
import Asm16.Proofs.Engine.Table
import Mathlib.Data.List.Induction

namespace Asm16

/-- An access to a machine from outside, by any index. -/
inductive Access
  | load (words : List Word)
  | readRegister (index : Nat)
  | writeRegister (index : Nat) (value : Int32)
  | readMemory (address : Nat)
  | writeMemory (address : Nat) (word : Word)
deriving DecidableEq, Repr

/-- The answer to an access that is not refused. -/
inductive Access.Answer
  | done
  | value (value : Int32)
  | word (word : Word)
deriving DecidableEq, Repr

namespace Machine

/-- The machine that a change leaves, whether it is refused or not, and what is answered. -/
def Outcome.answered : Outcome AccessError Unit → Machine × Except AccessError Access.Answer
  | .ok _ next => (next, .ok .done)
  | .error error next => (next, .error error)

/-- The machine after an access, and what is answered. -/
def perform (machine : Machine) : Access → Machine × Except AccessError Access.Answer
  | .load words => (machine.load words).answered
  | .readRegister index => (machine, (machine.readRegister index).map .value)
  | .writeRegister index value => (machine.writeRegister index value).answered
  | .readMemory address => (machine, (machine.readMemory address).map .word)
  | .writeMemory address word => (machine.writeMemory address word).answered

/-- The machine after accesses, one after another. -/
def afterAll (machine : Machine) (history : List Access) : Machine :=
  history.foldl (fun machine access => (machine.perform access).1) machine

end Machine

namespace Access

/-! ### What accesses are to do -/

/-- An access is in bounds: its register or its memory cell exists, or its program fits. -/
def InBounds : Access → Prop
  | load words => words.length ≤ 4096
  | readRegister index | writeRegister index _ => index < 16
  | readMemory address | writeMemory address _ => address < 4096

/-- The refusal of an access names its index or the length of its program. -/
def refusal : Access → AccessError
  | load words => .programTooLarge words.length
  | readRegister index | writeRegister index _ => .invalidRegister index
  | readMemory address | writeMemory address _ => .invalidAddress address

/-- An access puts a value into the register with the given index. -/
inductive Sets (index : Nat) : Access → Int32 → Prop
  | write {value : Int32} : Sets index (.writeRegister index value) value

/-- An access puts a word into the memory cell at the given address: it writes the word there, or
loads a program that fits in memory and has the word there. -/
inductive Fills (address : Nat) : Access → Word → Prop
  | write {word : Word} : Fills address (.writeMemory address word) word
  | load {words : List Word} {word : Word} (fits : words.length ≤ 4096)
      (covers : words[address]? = some word) : Fills address (.load words) word

/-- What a history of accesses has put somewhere last, or what there was before it if none of them
has put anything there. -/
inductive Last {α : Type} (puts : Access → α → Prop) (initial : α) (history : List Access) :
    α → Prop
  | initial (never : ∀ access ∈ history, ∀ value, ¬ puts access value) :
      Last puts initial history initial
  | put {before after : List Access} {access : Access} {value : α}
      (split : history = before ++ access :: after) (put : puts access value)
      (latest : ∀ later ∈ after, ∀ other, ¬ puts later other) : Last puts initial history value

/-- What an access does to a machine after a history of accesses, and what is answered. -/
inductive Does (history : List Access) (machine : Machine) :
    Access → Machine × Except AccessError Answer → Prop
  | load {words : List Word} {next : Machine} (fits : words.length ≤ 4096)
      (program : ∀ (address : Address) (word : Word), words[address.val]? = some word →
        next.cell address = word)
      (others : machine.SameBut next ∅ {address | address.val < words.length})
      (pc : next.pc = machine.pc) : Does history machine (.load words) (next, .ok .done)
  | readRegister {index : Nat} {value : Int32} (inside : index < 16)
      (last : Last (Sets index) 0 history value) :
      Does history machine (.readRegister index) (machine, .ok (.value value))
  | writeRegister {register : Register} {value : Int32} {next : Machine}
      (written : next.register register = value) (others : machine.SameBut next {register} ∅)
      (pc : next.pc = machine.pc) :
      Does history machine (.writeRegister register.index.val value) (next, .ok .done)
  | readMemory {address : Nat} {word : Word} (inside : address < 4096)
      (last : Last (Fills address) 0 history word) :
      Does history machine (.readMemory address) (machine, .ok (.word word))
  | writeMemory {address : Address} {word : Word} {next : Machine}
      (written : next.cell address = word) (others : machine.SameBut next ∅ {address})
      (pc : next.pc = machine.pc) :
      Does history machine (.writeMemory address.val word) (next, .ok .done)
  | refused {access : Access} (outside : ¬ access.InBounds) :
      Does history machine access (machine, .error access.refusal)

/-- An access that puts nothing somewhere leaves there what was put last. -/
theorem Last.concat {α : Type} {puts : Access → α → Prop} {initial value : α}
    {history : List Access} {access : Access} (last : Last puts initial history value)
    (nothing : ∀ other, ¬ puts access other) : Last puts initial (history ++ [access]) value := by
  have concat {earlier : List Access} (none : ∀ later ∈ earlier, ∀ other, ¬ puts later other) :
      ∀ later ∈ earlier ++ [access], ∀ other, ¬ puts later other := by
    rw [List.forall_mem_append, List.forall_mem_singleton]
    exact ⟨none, nothing⟩
  cases last with
  | initial never => exact .initial (concat never)
  | @put before after putting _ split put latest =>
    have split' : history ++ [access] = before ++ putting :: (after ++ [access]) := by
      rw [split, List.append_assoc, List.cons_append]
    exact .put split' put (concat latest)

end Access

namespace Machine

open Access

variable {machine : Machine} {access : Access}

/-! ### One access -/

/-- A refused access changes nothing. -/
theorem perform_of_not_inBounds (machine : Machine) (outside : ¬ access.InBounds) :
    machine.perform access = (machine, .error access.refusal) := by
  cases access with
  | load words =>
    rw [perform, load_of_lt machine (Nat.lt_of_not_le outside)]
    rfl
  | readRegister index =>
    rw [perform, readRegister_eq, dif_neg (show ¬ index < 16 from outside)]
    rfl
  | writeRegister index value =>
    rw [perform, writeRegister, dif_neg (show ¬ index < 16 from outside)]
    rfl
  | readMemory address =>
    rw [perform, readMemory_eq, dif_neg (show ¬ address < 4096 from outside)]
    rfl
  | writeMemory address word =>
    rw [perform, writeMemory, dif_neg (show ¬ address < 4096 from outside)]
    rfl

theorem perform_writeRegister (machine : Machine) {index : Nat} (inside : index < 16)
    (value : Int32) : machine.perform (.writeRegister index value) =
      (machine.setRegister ⟨⟨index, inside⟩⟩ value, .ok .done) := by
  rw [perform, writeRegister, dif_pos inside]
  rfl

theorem perform_writeMemory (machine : Machine) {address : Nat} (inside : address < 4096)
    (word : Word) : machine.perform (.writeMemory address word) =
      (machine.setCell ⟨address, inside⟩ word, .ok .done) := by
  rw [perform, writeMemory, dif_pos inside]
  rfl

/-- A program that fits is loaded, and nothing else is changed. -/
theorem exists_perform_load (machine : Machine) {words : List Word} (fits : words.length ≤ 4096) :
    ∃ next, machine.perform (.load words) = (next, .ok .done) ∧ next.pc = machine.pc ∧
      (∀ register, next.register register = machine.register register) ∧
      ∀ address, next.cell address = words[address.val]?.getD (machine.cell address) := by
  obtain ⟨next, load⟩ := machine.exists_load fits
  obtain ⟨pc, registers⟩ := keeps_of_load load
  refine ⟨next, by rw [perform, load]; rfl, pc, fun register => ?_, cell_of_load load⟩
  unfold Machine.register
  rw [registers]

/-- A register holds what an access puts there. -/
theorem register_perform_of_sets {register : Register} {value : Int32}
    (sets : Sets register.index.val access value) :
    (machine.perform access).1.register register = value := by
  cases sets with
  | write =>
    rw [perform_writeRegister machine register.index.isLt]
    exact (register_setRegister ..).trans (if_pos rfl)

/-- A register is as it was if an access puts nothing there. -/
theorem register_perform_of_kept {register : Register}
    (kept : ∀ value, ¬ Sets register.index.val access value) :
    (machine.perform access).1.register register = machine.register register := by
  by_cases inside : access.InBounds
  · cases access with
    | load words =>
      obtain ⟨next, performed, -, registers, -⟩ := machine.exists_perform_load inside
      rw [performed]
      exact registers register
    | readRegister index => rfl
    | writeRegister index value =>
      rw [machine.perform_writeRegister inside]
      refine (register_setRegister ..).trans (if_neg ?_)
      rintro rfl
      exact kept value .write
    | readMemory address => rfl
    | writeMemory address word =>
      rw [machine.perform_writeMemory inside]
      rfl
  · rw [machine.perform_of_not_inBounds inside]

/-- A memory cell holds what an access puts there. -/
theorem cell_perform_of_fills {address : Address} {word : Word}
    (fills : Fills address.val access word) :
    (machine.perform access).1.cell address = word := by
  cases fills with
  | write =>
    rw [perform_writeMemory machine address.isLt]
    exact (cell_setCell ..).trans (if_pos rfl)
  | load fits covers =>
    obtain ⟨next, performed, -, -, cells⟩ := machine.exists_perform_load fits
    rw [performed]
    exact (cells address).trans (by rw [covers, Option.getD_some])

/-- A memory cell is as it was if an access puts nothing there. -/
theorem cell_perform_of_kept {address : Address}
    (kept : ∀ word, ¬ Fills address.val access word) :
    (machine.perform access).1.cell address = machine.cell address := by
  by_cases inside : access.InBounds
  · cases access with
    | load words =>
      obtain ⟨next, performed, -, -, cells⟩ := machine.exists_perform_load inside
      have uncovered : words[address.val]? = none :=
        Option.eq_none_iff_forall_ne_some.mpr fun word covers => kept word (.load inside covers)
      rw [performed]
      exact (cells address).trans (by rw [uncovered, Option.getD_none])
    | readRegister index => rfl
    | writeRegister index value =>
      rw [machine.perform_writeRegister inside]
      rfl
    | readMemory address => rfl
    | writeMemory other word =>
      rw [machine.perform_writeMemory inside]
      refine (cell_setCell ..).trans (if_neg ?_)
      rintro rfl
      exact kept word .write
  · rw [machine.perform_of_not_inBounds inside]

/-! ### Any history of accesses -/

/-- What each access either puts or keeps is what was put last. -/
theorem last_afterAll {α : Type} (part : Machine → α) {puts : Access → α → Prop}
    (put : ∀ {machine : Machine} {access : Access} {value : α}, puts access value →
      part (machine.perform access).1 = value)
    (kept : ∀ {machine : Machine} {access : Access}, (∀ value, ¬ puts access value) →
      part (machine.perform access).1 = part machine) (start : Machine) (history : List Access) :
    Last puts (part start) history (part (start.afterAll history)) := by
  induction history using List.reverseRecOn with
  | nil => exact .initial nofun
  | append_singleton history access ih =>
    have step : start.afterAll (history ++ [access]) =
        ((start.afterAll history).perform access).1 := by
      rw [afterAll, List.foldl_append]
      rfl
    rw [step]
    by_cases puts? : ∃ value, puts access value
    · obtain ⟨value, puts⟩ := puts?
      rw [put puts]
      exact .put rfl puts nofun
    · rw [kept (not_exists.mp puts?)]
      exact ih.concat (not_exists.mp puts?)

/-- Every register holds what was put there last. -/
theorem last_register (history : List Access) (register : Register) :
    Last (Sets register.index.val) 0 history ((fresh.afterAll history).register register) := by
  rw [← register_fresh register]
  exact last_afterAll (fun machine => machine.register register)
    register_perform_of_sets register_perform_of_kept fresh history

/-- Every memory cell holds what was put there last. -/
theorem last_cell (history : List Access) (address : Address) :
    Last (Fills address.val) 0 history ((fresh.afterAll history).cell address) := by
  rw [← cell_fresh address]
  exact last_afterAll (fun machine => machine.cell address)
    cell_perform_of_fills cell_perform_of_kept fresh history

/-- **A machine is a store that is checked for its bounds**: after any history of accesses to a
fresh machine, a read answers what was put there last, a write or a program changes its register or
its memory cells and nothing else, and an access out of bounds is refused and changes nothing. -/
theorem does_perform (history : List Access) (access : Access) :
    access.Does history (fresh.afterAll history) ((fresh.afterAll history).perform access) := by
  by_cases inside : access.InBounds
  · cases access with
    | load words =>
      obtain ⟨next, performed, pc, registers, cells⟩ :=
        (fresh.afterAll history).exists_perform_load inside
      rw [performed]
      refine .load inside (fun address word covers => ?_)
        ⟨fun register _ => registers register, fun address uncovered => ?_⟩ pc
      · rw [cells, covers, Option.getD_some]
      · rw [cells, List.getElem?_eq_none (Nat.le_of_not_lt uncovered), Option.getD_none]
    | readRegister index =>
      rw [perform, readRegister_eq, dif_pos (show index < 16 from inside)]
      exact .readRegister inside (last_register history ⟨⟨index, inside⟩⟩)
    | writeRegister index value =>
      rw [perform_writeRegister _ inside]
      have written := register_setRegister (fresh.afterAll history) ⟨⟨index, inside⟩⟩
        ⟨⟨index, inside⟩⟩ value
      exact .writeRegister (written.trans (if_pos rfl)) (sameBut_setRegister ..) rfl
    | readMemory address =>
      rw [perform, readMemory_eq, dif_pos (show address < 4096 from inside)]
      exact .readMemory inside (last_cell history ⟨address, inside⟩)
    | writeMemory address word =>
      rw [perform_writeMemory _ inside]
      have written := cell_setCell (fresh.afterAll history) ⟨address, inside⟩ ⟨address, inside⟩
        word
      exact .writeMemory (written.trans (if_pos rfl)) (sameBut_setCell ..) rfl
  · rw [perform_of_not_inBounds _ inside]
    exact .refused inside

end Machine

end Asm16
