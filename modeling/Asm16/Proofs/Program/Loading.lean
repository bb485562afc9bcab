/-
**What is accepted can be loaded.**

Sources, texts of binary digits and files of bytes are each checked for their size before a machine
is loaded, which checks the size once more:

* `Accepted` — the programs that are assembled or read.
* `Engine.Loaded` — a run starts with a program and zeros everywhere else.
* `Source.JumpsTo` — a line is a jump to a declared label. Labels stand for addresses in memory, so
  that such a jump has an operand that fits (`Source.reads_of_jumpsTo`).
* `accepted_can_be_loaded` — accepted programs fit in memory, so do their labels, and no jump to a
  label is refused for its operand.
-/

import Asm16.Proofs.Assembly.Culprit
import Asm16.Proofs.Engine.Origin
import Asm16.Proofs.Program.Encoding
import Mathlib.Data.List.Nodup

namespace Asm16

/-- The programs that are assembled from a source, or read from a text or from bytes. -/
inductive Accepted : List Word → Prop
  | source {source : String} {program : Assembly} (assembled : assemble source = .ok program) :
      Accepted program.words
  | text {text : String} {words : List Word} (read : Program.ofText text = .ok words) :
      Accepted words
  | bytes {bytes : ByteArray} {words : List Word} (read : Program.ofBytes bytes = .ok words) :
      Accepted words

/-! ### Loading -/

theorem Accepted.fits {words : List Word} (accepted : Accepted words) : words.length ≤ 4096 := by
  cases accepted with
  | source assembled =>
    rw [(translates_of_assemble assembled).size]
    exact (wellFormed_of_assemble assembled).fits
  | text read =>
    obtain ⟨_, -, fits⟩ := Except.bind_eq_ok_iff.mp read
    exact (Program.fitting_eq_ok_iff.mp fits).2
  | bytes read =>
    unfold Program.ofBytes at read
    split at read
    · exact (Program.fitting_eq_ok_iff.mp read).2
    · cases read

/-- A run has not begun, with a program in memory and zeros after it, and zeros in the registers. -/
structure Engine.Loaded (words : List Word) (budget : Option Nat) (engine : Engine) : Prop where
  status : engine.status = .running
  budget : engine.budget = budget
  steps : engine.steps = 0
  pc : engine.machine.pc = 0
  registers : ∀ register, engine.machine.register register = 0
  memory : engine.machine.memory.toList = words ++ List.replicate (4096 - words.length) 0

/-- The cells of a run at its start are the program and zeros. -/
theorem Engine.toList_memory_new {words : List Word} (fits : words.length ≤ 4096)
    (budget : Option Nat) : (Engine.new words budget).machine.memory.toList =
      words ++ List.replicate (4096 - words.length) 0 := by
  refine List.ext_getElem (by simp; omega) fun index inside _ => ?_
  have bound : index < 4096 := by simpa using inside
  have held := Engine.cell_new fits budget ⟨index, bound⟩
  rw [Vector.getElem_toList, List.getElem_append]
  refine held.trans ?_
  split
  · next covered => simp [covered]
  · next uncovered => simp [Nat.le_of_not_lt uncovered]

theorem Engine.loaded_new {words : List Word} (fits : words.length ≤ 4096) (budget : Option Nat) :
    (Engine.new words budget).Loaded words budget := by
  have memory := Engine.toList_memory_new fits budget
  obtain ⟨loaded, load, start⟩ := Engine.exists_new_eq_ofMachine fits
  obtain ⟨pc, registers⟩ := Machine.keeps_of_load load
  rw [start] at memory ⊢
  refine ⟨rfl, rfl, rfl, pc, fun register => ?_, memory⟩
  show loaded.register register = 0
  rw [Machine.register, registers]
  exact Machine.register_fresh register

/-! ### Labels -/

/-- A declared label stands for the address of an instruction, or for that after the last one. -/
theorem Source.Declares.le_countP {lines : List Line} {name : String} {address : Nat}
    (declares : Source.Declares lines name address) : address ≤ lines.countP Line.isInstruction := by
  obtain ⟨before, line, after, rfl, -, count⟩ := declares
  rw [List.countP_append, count]
  exact Nat.le_add_right _ _

/-- The labels of a program are the declared ones, and they are in memory or right after the
program. -/
theorem declares_of_mem_labels {source : String} {program : Assembly}
    (assembled : assemble source = .ok program) {name : String} {address : Address}
    (member : (name, address) ∈ program.labels.entries) :
    Source.Declares (Source.lines source) name address.val ∧ address.val < 4096 ∧
      address.val ≤ program.words.length := by
  have translates := translates_of_assemble assembled
  have declares : Source.Declares (Source.lines source) name address.val :=
    (translates.addresses name _).mpr ⟨address, LabelTable.get?_eq_some_iff.mpr member, rfl⟩
  exact ⟨declares, (wellFormed_of_assemble assembled).inMemory name _ declares,
    translates.size ▸ declares.le_countP⟩

/-! ### Jumps to labels -/

namespace Source

/-- A line is a `JMP` to a declared label that stands for an address. -/
def JumpsTo (lines : List Line) (line : Line) (address : Nat) : Prop :=
  ∃ mnemonic target, line.content = .instruction mnemonic [target] ∧
    Opcode.jump.Spelled mnemonic.text ∧ Declares lines target.text address

variable {lines : List Line} {line : Line} {address : Nat} {instr other : Instr}
  {error : SourceError}

/-- A jump to a label reads as the jump to its address. -/
theorem reads_of_jumpsTo (arranged : Arranged lines) (jumps : JumpsTo lines line address) :
    ∃ target : Address, target.val = address ∧ Reads lines line (.jump target) := by
  obtain ⟨mnemonic, target, content, spelled, declares⟩ := jumps
  have name := arranged.names target.text (mem_labelNames_iff.mpr ⟨address, declares⟩)
  refine ⟨⟨address, arranged.inMemory _ _ declares⟩, rfl, mnemonic, [target], content, spelled, ?_⟩
  exact .cons (.label name.unlikeRegisters declares) .nil

/-- What a line reads as, and why it reads as nothing, are the two outcomes for its statement. -/
theorem exists_statement (arranged : Arranged lines) {mnemonic : Token} {operands : List Token}
    (content : line.content = .instruction mnemonic operands) :
    ∃ (statement : Statement) (labels : LabelTable),
      (∀ instr, Reads lines line instr → statement.instr labels = .ok instr) ∧
        ∀ error, Misread lines line error → statement.instr labels = .error error := by
  obtain ⟨outline, outlined⟩ := Outline.exists_ofLines_iff.mpr arranged
  have describes := Outline.describes_ofLines outlined
  let statement : Statement := ⟨line.number, 0, mnemonic, operands⟩
  have same : line.content = .instruction statement.mnemonic statement.operands := content
  exact ⟨statement, outline.labels,
    fun _ => (Statement.instr_eq_ok_iff_reads arranged describes same).mpr,
    fun _ => Statement.instr_of_misread arranged describes rfl same⟩

theorem Reads.unique (arranged : Arranged lines) (first : Reads lines line instr)
    (second : Reads lines line other) : instr = other := by
  obtain ⟨mnemonic, operands, content, -⟩ := id first
  obtain ⟨statement, labels, found, -⟩ := exists_statement arranged content
  exact Except.ok.inj ((found _ first).symm.trans (found _ second))

theorem Reads.not_misread (arranged : Arranged lines) (reads : Reads lines line instr) :
    ¬ Misread lines line error := by
  intro misread
  obtain ⟨mnemonic, operands, content, -⟩ := id reads
  obtain ⟨statement, labels, found, refused⟩ := exists_statement arranged content
  cases (found _ reads).symm.trans (refused _ misread)

/-! ### Numbers of lines -/

theorem map_number_linesOfPieces (number offset : Nat) (pieces : List (List Char)) :
    (linesOfPieces number offset pieces).map Line.number = List.range' number pieces.length := by
  induction pieces generalizing number offset with
  | nil => rfl
  | cons piece rest ih => simp [linesOfPieces, ih, List.range'_succ]

/-- No two lines of a source have the same number. -/
theorem eq_of_number_eq {source : String} {line other : Line} (member : line ∈ Source.lines source)
    (otherMember : other ∈ Source.lines source) (same : line.number = other.number) :
    line = other := by
  have distinct : ((Source.lines source).map Line.number).Nodup := by
    rw [Source.lines, map_number_linesOfPieces]
    exact List.nodup_range'
  exact List.inj_on_of_nodup_map distinct member otherMember same

theorem Blames.line_eq (blames : Blames lines line error) : error.line = line.number := by
  rcases blames with ⟨_, -, -, culprit⟩ | ⟨-, culprit⟩
  · exact (culprit []).line_eq
  · exact (culprit []).line_eq

/-- An error on the line of a jump to a label is that the line has no room in memory. -/
theorem exists_programTooLarge {source : String} (fails : Fails (Source.lines source) error)
    (member : line ∈ Source.lines source) (place : error.line = line.number)
    (jumps : JumpsTo (Source.lines source) line address) :
    ∃ length, error.mistake = .programTooLarge length := by
  have here {culprit : Line} (inLines : culprit ∈ Source.lines source)
      (blames : Blames (Source.lines source) culprit error) : culprit = line :=
    eq_of_number_eq inLines member (blames.line_eq.symm.trans place)
  cases fails with
  | rule split arranged breaks =>
    obtain rfl := here (by simp [split]) (blames_of_breaks split arranged breaks)
    obtain ⟨mnemonic, target, content, -⟩ := jumps
    cases breaks with
    | programTooLarge => exact ⟨_, rfl⟩
    | invalidLabel label => cases content.symm.trans label
    | labelPastEnd label => cases content.symm.trans label
    | duplicateLabel label => cases content.symm.trans label
  | instruction arranged split readable misread =>
    obtain rfl := here (by simp [split]) (blames_of_misread misread)
    obtain ⟨target, -, reads⟩ := reads_of_jumpsTo arranged jumps
    exact absurd misread (reads.not_misread arranged)

end Source

open Source

/-- A jump to a label is assembled to a jump to its address. -/
theorem encode_of_jumpsTo {source : String} {program : Assembly}
    (assembled : assemble source = .ok program) {before after : List Line} {line : Line}
    {address : Nat} (split : Source.lines source = before ++ line :: after)
    (jumps : JumpsTo (Source.lines source) line address) :
    ∃ target : Address, target.val = address ∧
      program.words[before.countP Line.isInstruction]? = some (Instr.jump target).encode := by
  have arranged := (wellFormed_of_assemble assembled).toArranged
  obtain ⟨target, same, jump⟩ := reads_of_jumpsTo arranged jumps
  refine ⟨target, same, ?_⟩
  obtain ⟨mnemonic, token, content, -⟩ := jumps
  have words := (translates_of_assemble assembled).words
  have instruction : line.isInstruction = true := by rw [Line.isInstruction, content]
  have parts : (Source.lines source).filter Line.isInstruction =
      before.filter Line.isInstruction ++ line :: after.filter Line.isInstruction := by
    rw [split, List.filter_append, List.filter_cons_of_pos instruction]
  rw [parts] at words
  obtain ⟨earlier, word, later, wordsEq, above, instr, reads, -, encoded⟩ :=
    List.exists_append_of_forall₂ words
  obtain rfl := jump.unique arranged reads
  have length : earlier.length = before.countP Line.isInstruction := by
    rw [← above.length_eq, List.countP_eq_length_filter]
  rw [wordsEq, ← length, encoded]
  simp

/-- **What is accepted can be loaded.** An accepted program fits in memory, and a run of it starts
with it at address zero, whatever the budget. Its labels stand for addresses that it covers or for
the one after it; so jumps to labels are assembled, and only for lack of room is one refused. -/
theorem accepted_can_be_loaded :
    (∀ words, Accepted words → words.length ≤ 4096 ∧
      ∀ budget, (Engine.new words budget).Loaded words budget) ∧
    (∀ source program, assemble source = .ok program →
      (∀ name address, (name, address) ∈ program.labels.entries →
        Declares (Source.lines source) name address.val ∧ address.val < 4096 ∧
          address.val ≤ program.words.length) ∧
      ∀ before line after address, Source.lines source = before ++ line :: after →
        JumpsTo (Source.lines source) line address → ∃ target : Address, target.val = address ∧
          program.words[before.countP Line.isInstruction]? = some (Instr.jump target).encode) ∧
    ∀ source error, assemble source = .error error →
      (∀ length, error.mistake ≠ .programTooLarge length) →
      ∀ line ∈ Source.lines source, error.line = line.number →
        ∀ address, ¬ JumpsTo (Source.lines source) line address := by
  refine ⟨fun words accepted => ⟨accepted.fits, Engine.loaded_new accepted.fits⟩,
    fun source program assembled => ⟨fun name address => declares_of_mem_labels assembled,
      fun before line after address => encode_of_jumpsTo assembled⟩,
    fun source error refused other line member place address jumps => ?_⟩
  obtain ⟨length, tooLarge⟩ :=
    exists_programTooLarge (fails_of_assemble refused) member place jumps
  exact other length tooLarge

/-- A jump to a label after the last instruction is assembled and loaded, and a word is loaded that
is read from text or from bytes. The operand that does not fit is not that of the jump before it. -/
theorem accepted_jump_to_end :
    let source := "JMP end\nend:\n"
    let program : Assembly := ⟨[0x8001], ⟨[("end", 1)], by decide⟩⟩
    let jump : Line := ⟨1, ⟨0, 7⟩, .instruction ⟨"JMP", 0⟩ [⟨"end", 4⟩]⟩
    let misfit := "JMP end\nLOAD R1, 256\nend:\n"
    let load : Line := ⟨2, ⟨8, 12⟩, .instruction ⟨"LOAD", 8⟩ [⟨"R1", 13⟩, ⟨"256", 17⟩]⟩
    (assemble source = .ok program ∧ (Engine.new program.words none).Loaded program.words none) ∧
      (Program.ofText "1111000000000000\n" = .ok [0xF000] ∧
        Program.ofBytes ⟨#[0xF0, 0x00]⟩ = .ok [0xF000] ∧
        (Engine.new [0xF000] (some 0)).Loaded [0xF000] (some 0)) ∧
      (JumpsTo (Source.lines source) jump 1 ∧ 1 ≤ program.words.length ∧
        ∃ target : Address, target.val = 1 ∧
          program.words[0]? = some (Instr.jump target).encode) ∧
      assemble misfit = .error ⟨2, ⟨17, 3⟩, .operandOutOfRange "256" 8⟩ ∧
      ∀ address, ¬ JumpsTo (Source.lines misfit) load address := by
  intro source program jump misfit load
  obtain ⟨loads, labels, jumps⟩ := accepted_can_be_loaded
  have assembled : assemble source = .ok program := by decide +kernel
  have text : Program.ofText "1111000000000000\n" = .ok [0xF000] := by decide +kernel
  have bytes : Program.ofBytes ⟨#[0xF0, 0x00]⟩ = .ok [0xF000] := by decide +kernel
  have lines : Source.lines source = [jump, ⟨2, ⟨8, 4⟩, .label ⟨"end", 8⟩⟩] := by decide +kernel
  have refused : assemble misfit = .error ⟨2, ⟨17, 3⟩, .operandOutOfRange "256" 8⟩ := by
    decide +kernel
  have jumpsTo : JumpsTo (Source.lines source) jump 1 :=
    ⟨_, _, rfl, Opcode.ofMnemonic?_eq_some_iff.mp (by decide), [jump], _, [], lines, rfl, rfl⟩
  obtain ⟨inMemory, encoded⟩ := labels source program assembled
  exact ⟨⟨assembled, (loads _ (.source assembled)).2 none⟩,
    ⟨text, bytes, (loads _ (.bytes bytes)).2 (some 0)⟩,
    ⟨jumpsTo, (inMemory "end" 1 (by decide)).2.2, encoded [] jump _ 1 lines jumpsTo⟩,
    refused, jumps misfit _ refused nofun load (by decide +kernel) rfl⟩

end Asm16
