/-
**What minimal output tells.**

* `Terminal.Delimited` — values are written so that each text shows its value and where it ends;
  `Terminal.Legible.delimited` says that numbers and names between a fixed text and a stop character
  are written so.
* `Opcode.textWith_inj`, `Effect.text_injective` — the text of an operation with any operands tells
  them, and the words for an effect tell the effect.
* `TraceEntry` — what a minimal line of a trace is made of; by `TraceEntry.line_injective` the line
  tells all of it.
* `Machine.plainRegisters_inj` — a minimal dump tells every register and the program counter.
* `minimal_loses_nothing` — minimal lines and dumps are the same only for the same content.
-/

import Asm16.Proofs.Assembly.Layout
import Asm16.Terminal.Registers
import Asm16.Terminal.Trace
import Mathlib

namespace Asm16

namespace Terminal

section

variable {α β : Type} {write : α → String} {key : β → α} {stop : Char}

/-! ### Texts that show where they end -/

/-- Values are written so that each text shows its value and where it ends, whatever follows. -/
def Delimited (write : α → List Char) : Prop :=
  ∀ ⦃first second : α⦄ ⦃rest others : List Char⦄,
    write first ++ rest = write second ++ others → first = second ∧ rest = others

/-- A value between a fixed text and a stop character. -/
def field (front : String) (write : α → String) (stop : Char) (value : α) : List Char :=
  front.toList ++ ((write value).toList ++ [stop])

theorem Delimited.injective {write : α → List Char} (delimited : Delimited write) :
    Function.Injective write := by
  intro first second same
  exact (delimited (congrArg (· ++ []) same)).1

/-- A text without a stop character ends before the first one. -/
theorem eq_of_append_stop {first second rest others : List Char} (absent : stop ∉ first)
    (absent' : stop ∉ second) (same : first ++ stop :: rest = second ++ stop :: others) :
    first = second ∧ rest = others := by
  have upTo {text : List Char} (absent : stop ∉ text) (rest : List Char) :
      (text ++ stop :: rest).takeWhile (· != stop) = text := by
    have kept (c : Char) (member : c ∈ text) : (c != stop) = true :=
      bne_iff_ne.mpr (ne_of_mem_of_not_mem member absent)
    rw [List.takeWhile_append_of_pos kept, List.takeWhile_cons_of_neg (by simp), List.append_nil]
  have fronts := congrArg (List.takeWhile (· != stop)) same
  rw [upTo absent, upTo absent'] at fronts
  subst fronts
  exact ⟨rfl, (List.cons.inj (List.append_cancel_left same)).2⟩

theorem delimited_field (front : String) (injective : Function.Injective write)
    (absent : ∀ value, stop ∉ (write value).toList) : Delimited (field front write stop) := by
  intro first second rest others same
  simp only [field, List.append_assoc, List.singleton_append] at same
  obtain ⟨texts, ends⟩ :=
    eq_of_append_stop (absent first) (absent second) (List.append_cancel_left same)
  exact ⟨injective (String.toList_inj.mp texts), ends⟩

/-- Delimited texts, one for each index, show the values of all indexes. -/
theorem eq_of_flatMap {write : β → α → List Char} (delimited : ∀ index, Delimited (write index))
    {values others : β → α} {rest rest' : List Char} (indexes : List β)
    (same : indexes.flatMap (fun index => write index (values index)) ++ rest =
      indexes.flatMap (fun index => write index (others index)) ++ rest') :
    (∀ index ∈ indexes, values index = others index) ∧ rest = rest' := by
  induction indexes with
  | nil => exact ⟨nofun, same⟩
  | cons index indexes ih =>
    simp only [List.flatMap_cons, List.append_assoc] at same
    obtain ⟨value, same⟩ := delimited index same
    obtain ⟨values, rests⟩ := ih same
    exact ⟨List.forall_mem_cons.mpr ⟨value, values⟩, rests⟩

/-! ### Numbers and names -/

/-- Values are written each in its own way, in letters, digits and minus signs. -/
structure Legible (write : α → String) : Prop where
  injective : Function.Injective write
  characters : ∀ value, ∀ c ∈ (write value).toList, c.isAlphanum = true ∨ c = '-'

theorem Legible.comp (legible : Legible write) (injective : Function.Injective key) :
    Legible (write ∘ key) where
  injective := legible.injective.comp injective
  characters value := legible.characters (key value)

theorem Legible.delimited (legible : Legible write) (front : String) (stop : Char)
    (stops : stop.isAlphanum = false ∧ stop ≠ '-') : Delimited (field front write stop) := by
  refine delimited_field front legible.injective fun value member => ?_
  rcases legible.characters value stop member with alphanumeric | minus
  · exact Bool.false_ne_true (stops.1.symm.trans alphanumeric)
  · exact stops.2 minus

end

/-- A word in decimal. -/
def wordNumeral (word : Word) : String := toString word.toNat

/-- The value of a register in decimal. -/
def valueNumeral (value : Int32) : String := toString value.toInt

/-- An address in decimal. -/
def addressNumeral (address : Address) : String := toString address.val

theorem legible_nat : Legible (toString : Nat → String) where
  injective _ _ := Nat.repr_injective
  characters number c member := .inl ((Source.isWord_operand (.value number)).2 c member)

theorem legible_int : Legible (toString : Int → String) where
  injective _ _ := Int.repr_injective
  characters number c member := by
    rw [Int.toString_eq_repr, Int.repr_eq_if] at member
    split at member
    · exact legible_nat.characters _ c member
    · rw [String.toList_append] at member
      rcases List.mem_append.mp member with minus | digits
      · exact .inr (List.mem_singleton.mp minus)
      · exact legible_nat.characters _ c digits

theorem legible_wordNumeral : Legible wordNumeral :=
  legible_nat.comp fun _ _ same => UInt16.toNat_inj.mp same

theorem legible_valueNumeral : Legible valueNumeral :=
  legible_int.comp fun _ _ same => Int32.toInt_inj.mp same

theorem legible_addressNumeral : Legible addressNumeral :=
  legible_nat.comp Fin.val_injective

theorem legible_name : Legible Register.name where
  injective := by
    rintro ⟨first⟩ ⟨second⟩ same
    have digits := (String.append_right_inj "R").mp same
    exact congrArg Register.mk (Fin.ext (legible_nat.injective digits))
  characters register c member := .inl ((Source.isWord_operand (.register register)).2 c member)

theorem legible_operand : Legible Operand.text where
  injective first second same := by
    have apart (register : Register) (number : Nat) : register.name ≠ toString number := by
      intro same
      have letter : 'R' ∈ (toString number).toList := by
        rw [← same, Source.toList_name]
        exact List.mem_cons_self
      rw [Source.toList_toString] at letter
      exact absurd (Source.isDigit_of_mem_toDigits letter) (by unfold Numeral.IsDigit; decide)
    cases first with
    | register register =>
      cases second with
      | register other => rw [legible_name.injective same]
      | value number => exact absurd same (apart register number)
    | value number =>
      cases second with
      | register register => exact absurd same.symm (apart register number)
      | value other => rw [legible_nat.injective same]
  characters operand c member := .inl ((Source.isWord_operand operand).2 c member)

/-- A text within a text stands there as it is. -/
@[simp] theorem toString_text (text : String) : toString text = text := rfl

end Terminal

open Terminal

/-! ### Instructions -/

theorem Opcode.mnemonic_injective : Function.Injective Opcode.mnemonic := by
  intro first second same
  have spelled : first.Spelled second.mnemonic := by rw [Spelled, same]
  have itself : second.Spelled second.mnemonic := rfl
  exact Option.some.inj
    ((ofMnemonic?_eq_some_iff.mpr spelled).symm.trans (ofMnemonic?_eq_some_iff.mpr itself))

/-- The text of an operation with any operands tells them. -/
theorem Opcode.textWith_inj {opcode opcode' : Opcode} {operands operands' : List Operand} :
    opcode.textWith operands = opcode'.textWith operands' ↔
      opcode = opcode' ∧ operands = operands' := by
  constructor
  · intro same
    have words := Source.words_textWith opcode operands
    rw [same, Source.words_textWith opcode' operands'] at words
    have printed := List.map_injective_iff.mpr (fun _ _ => String.toList_injective) words
    obtain ⟨mnemonics, texts⟩ := List.cons.inj printed
    exact ⟨mnemonic_injective mnemonics.symm,
      List.map_injective_iff.mpr legible_operand.injective texts.symm⟩
  · rintro ⟨rfl, rfl⟩
    rfl

/-- An instruction is told by its operation and its operands. -/
theorem Instr.eq_of_arguments {instr other : Instr} (opcode : instr.opcode = other.opcode)
    (arguments : instr.arguments = other.arguments) : instr = other := by
  -- The same operation leaves two instructions of one form.
  cases instr <;> cases other <;> cases opcode <;>
    simp_all [Instr.arguments, UInt8.toNat_inj, Fin.val_inj]

/-! ### Effects -/

namespace Effect

/-- The first character of the words for an effect, another one for each kind of effect. -/
def initial : Effect → Char
  | register .. => 'R'
  | memory .. => 'm'
  | jump _ => 'j'
  | notTaken => 'f'
  | halt => 'h'

theorem toList_text_register (changed : Register) (before after : Int32) :
    (register changed before after).text.toList =
      field "" Register.name ' ' changed ++
        (field "= " valueNumeral ' ' after ++ field "(was " valueNumeral ')' before) := by
  simp [text, field, valueNumeral]

theorem toList_text_memory (address before after : Word) :
    (memory address before after).text.toList =
      field "mem[" wordNumeral ']' address ++
        (field " = " wordNumeral ' ' after ++ field "(was " wordNumeral ')' before) := by
  simp [text, field, wordNumeral]

theorem toList_text_jump (target : Word) :
    (jump target).text.toList = "jump to ".toList ++ (wordNumeral target).toList := by
  simp [text, wordNumeral]

theorem head?_text (effect : Effect) : effect.text.toList.head? = some effect.initial := by
  cases effect with
  | register changed before after =>
    rw [toList_text_register, field, Source.toList_name]
    rfl
  | memory address before after =>
    rw [toList_text_memory]
    rfl
  | jump target =>
    rw [toList_text_jump]
    rfl
  | notTaken | halt => rfl

/-- The words for an effect tell the effect. -/
theorem text_injective : Function.Injective text := by
  intro first second same
  have texts := congrArg String.toList same
  have initials : first.initial = second.initial := by
    rw [← Option.some_inj, ← head?_text, ← head?_text, texts]
  cases first with
  | register changed before after =>
    cases second with
    | register changed' before' after' =>
      rw [toList_text_register, toList_text_register] at texts
      obtain ⟨rfl, values⟩ := legible_name.delimited "" ' ' (by decide) texts
      obtain ⟨rfl, value⟩ := legible_valueNumeral.delimited "= " ' ' (by decide) values
      rw [(legible_valueNumeral.delimited "(was " ')' (by decide)).injective value]
    | _ => simp [initial] at initials
  | memory address before after =>
    cases second with
    | memory address' before' after' =>
      rw [toList_text_memory, toList_text_memory] at texts
      obtain ⟨rfl, words⟩ := legible_wordNumeral.delimited "mem[" ']' (by decide) texts
      obtain ⟨rfl, word⟩ := legible_wordNumeral.delimited " = " ' ' (by decide) words
      rw [(legible_wordNumeral.delimited "(was " ')' (by decide)).injective word]
    | _ => simp [initial] at initials
  | jump target =>
    cases second with
    | jump target' =>
      rw [toList_text_jump, toList_text_jump] at texts
      have numerals := String.toList_inj.mp (List.append_cancel_left texts)
      rw [legible_wordNumeral.injective numerals]
    | _ => simp [initial] at initials
  | notTaken =>
    cases second with
    | notTaken => rfl
    | _ => simp [initial] at initials
  | halt =>
    cases second with
    | halt => rfl
    | _ => simp [initial] at initials

end Effect

/-! ### Lines of a trace -/

/-- What a minimal line of a trace is made of. The operands may be any, also those of no
instruction, such as an address beyond memory. -/
@[ext]
structure TraceEntry where
  step : Nat
  pc : Word
  opcode : Opcode
  operands : List Operand
  effect : Effect

namespace TraceEntry

/-- The minimal line of a trace for an entry. -/
def line (entry : TraceEntry) : String :=
  s!"{entry.step} {entry.pc.toNat} {entry.opcode.textWith entry.operands} ; {entry.effect.text}"

/-- An operation with its operands, and the space after them. -/
def instructionText (instruction : Opcode × List Operand) : String :=
  instruction.1.textWith instruction.2 ++ " "

/-- Separators, letters and digits are no semicolons. -/
theorem delimited_instructionText : Delimited (field "" instructionText ';') := by
  refine delimited_field "" ?_ ?_
  · rintro ⟨opcode, operands⟩ ⟨opcode', operands'⟩ same
    exact Prod.ext_iff.mpr (Opcode.textWith_inj.mp ((String.append_left_inj " ").mp same))
  · rintro ⟨opcode, operands⟩ member
    rw [instructionText, String.toList_append, List.mem_append] at member
    rcases member with inText | inEnd
    · have written := (Source.spaced_textWith opcode operands).isWritten
        (Source.isWord_printedWith opcode operands) _ inText
      rcases written with ⟨separator, -⟩ | alphanumeric
      · cases separator
      · cases alphanumeric
    · cases List.mem_singleton.mp inEnd

theorem toList_line (entry : TraceEntry) : entry.line.toList =
    field "" toString ' ' entry.step ++ (field "" wordNumeral ' ' entry.pc ++
      (field "" instructionText ';' (entry.opcode, entry.operands) ++
        (" ".toList ++ entry.effect.text.toList))) := by
  simp [line, field, wordNumeral, instructionText]

/-- A minimal line of a trace tells all that it is made of. -/
theorem line_injective : Function.Injective line := by
  intro first second same
  have texts := congrArg String.toList same
  rw [toList_line, toList_line] at texts
  obtain ⟨step, afterStep⟩ := legible_nat.delimited "" ' ' (by decide) texts
  obtain ⟨pc, afterPc⟩ := legible_wordNumeral.delimited "" ' ' (by decide) afterStep
  obtain ⟨instruction, afterInstruction⟩ := delimited_instructionText afterPc
  obtain ⟨opcode, operands⟩ := Prod.mk.inj instruction
  have effects := String.toList_inj.mp (List.append_cancel_left afterInstruction)
  exact TraceEntry.ext step pc opcode operands (Effect.text_injective effects)

end TraceEntry

/-- The entry of an event. -/
def Event.entry (event : Event) : TraceEntry where
  step := event.step
  pc := event.pc
  opcode := event.instr.opcode
  operands := event.instr.arguments
  effect := event.effect

theorem Event.line_minimal (event : Event) : event.line .minimal = event.entry.line := by
  rw [Event.line, Source.text_eq]
  rfl

theorem Event.entry_inj {first second : Event} : first.entry = second.entry ↔
    first.step = second.step ∧ first.pc = second.pc ∧ first.instr = second.instr ∧
      first.effect = second.effect := by
  rw [TraceEntry.ext_iff]
  constructor
  · rintro ⟨step, pc, opcode, arguments, effect⟩
    exact ⟨step, pc, Instr.eq_of_arguments opcode arguments, effect⟩
  · rintro ⟨step, pc, instr, effect⟩
    exact ⟨step, pc, congrArg Instr.opcode instr, congrArg Instr.arguments instr, effect⟩

/-! ### Dumps of registers -/

namespace Machine

theorem toList_plainRegisters (machine : Machine) : machine.plainRegisters.toList =
    (List.finRange 16).flatMap (fun index =>
      field (Register.name ⟨index⟩ ++ " ") valueNumeral '\n' (machine.register ⟨index⟩)) ++
    field "PC " addressNumeral '\n' machine.pc := by
  simp [plainRegisters, registerValues, register, field, valueNumeral, addressNumeral,
    List.flatMap_map]

/-- A minimal dump tells every register and the program counter. -/
theorem plainRegisters_inj {first second : Machine} :
    first.plainRegisters = second.plainRegisters ↔
      first.registers = second.registers ∧ first.pc = second.pc := by
  constructor
  · intro same
    have texts := congrArg String.toList same
    rw [toList_plainRegisters, toList_plainRegisters] at texts
    have delimited (index : Fin 16) :=
      legible_valueNumeral.delimited (Register.name ⟨index⟩ ++ " ") '\n' (by decide)
    obtain ⟨values, ends⟩ := eq_of_flatMap delimited (List.finRange 16) texts
    refine ⟨Vector.ext fun index bound => values ⟨index, bound⟩ (List.mem_finRange _), ?_⟩
    exact (legible_addressNumeral.delimited "PC " '\n' (by decide)).injective ends
  · rintro ⟨registers, pc⟩
    rw [plainRegisters, plainRegisters, registerValues, registerValues, registers, pc]

end Machine

/-- **Minimal output loses nothing**: two lines of a trace are the same only for the same number,
address, instruction and effect, whatever the operands of the instructions, and two dumps only for
the same registers and the same program counter. -/
theorem minimal_loses_nothing :
    (∀ first second : Event, first.line .minimal = second.line .minimal ↔
      first.step = second.step ∧ first.pc = second.pc ∧ first.instr = second.instr ∧
        first.effect = second.effect) ∧
    (∀ first second : TraceEntry, first.line = second.line ↔ first = second) ∧
    ∀ first second : Machine, first.registerDump .minimal = second.registerDump .minimal ↔
      first.registers = second.registers ∧ first.pc = second.pc := by
  refine ⟨fun first second => ?_, fun _ _ => TraceEntry.line_injective.eq_iff,
    fun _ _ => Machine.plainRegisters_inj⟩
  rw [Event.line_minimal, Event.line_minimal, TraceEntry.line_injective.eq_iff, Event.entry_inj]

end Asm16
