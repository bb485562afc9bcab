/-
**Assembling translates a source.**

* `Operand.resolve_eq_ok_iff` — against the labels of a source, a token resolves to what it denotes.
* `Statement.instr_eq_ok_iff` — a statement yields the instruction that its mnemonic spells and its
  operands make up.
* `assemble_eq_ok_iff` — assembling is outlining and then encoding.
* `exists_assemble_iff_and_translates` — exactly the sources that are programs are
  assembled, and what they are assembled to is their translation.
-/

import Asm16.Proofs.Assembly.Outline
import Asm16.Proofs.Assembly.Resolution

namespace Asm16

open Source

/-! ### Operands -/

namespace Operand

variable {lines : List Line} {outline : Outline}

/-- A declared name starts with no digit, so that no numeral is bound. -/
theorem unbound_of_isNumeral (arranged : Arranged lines) (describes : outline.Describes lines)
    {token : String} (numeral : Numeral.IsNumeral token) (address : Address) :
    (token, address) ∉ outline.labels.entries := by
  revert address
  rw [← LabelTable.get?_eq_none_iff, describes.get?_eq_none_iff]
  exact fun declared => (arranged.names token declared).not_isNumeral numeral

/-- Against the labels of a source, a token resolves to what it denotes there, as long as that has
at most 32 bits. -/
theorem resolve_eq_ok_iff (arranged : Arranged lines) (describes : outline.Describes lines)
    {token : String} {operand : Operand} :
    resolve outline.labels token = .ok operand ↔ Denotes lines token operand ∧
      ∀ number, operand = .value number → number < 4294967296 := by
  rw [resolve_eq_iff]
  constructor
  · intro resolves
    cases resolves with
    | register named => exact ⟨.register named, nofun⟩
    | @label address unlikeRegisters bound =>
      have declared : Declares lines token address.val :=
        (describes.addresses token _).mpr ⟨address, LabelTable.get?_eq_some_iff.mpr bound, rfl⟩
      refine ⟨.label unlikeRegisters declared, ?_⟩
      rintro _ ⟨⟩
      have := address.isLt
      omega
    | numeral unlikeRegisters _ numeral small =>
      rw [← Numeral.decimalValue_eq_byPlaces] at small ⊢
      refine ⟨.numeral unlikeRegisters numeral, ?_⟩
      rintro _ ⟨⟩
      exact small
  · rintro ⟨denotes, small⟩
    cases denotes with
    | register named => exact .register named
    | label unlikeRegisters declared =>
      obtain ⟨address, get, rfl⟩ := (describes.addresses token _).mp declared
      exact .label unlikeRegisters (LabelTable.get?_eq_some_iff.mp get)
    | numeral unlikeRegisters numeral =>
      rw [Numeral.decimalValue_eq_byPlaces] at small ⊢
      exact .numeral unlikeRegisters (unbound_of_isNumeral arranged describes numeral) numeral
        (small _ rfl)

end Operand

/-! ### Statements -/

namespace Statement

variable {statement : Statement} {labels : LabelTable}

theorem blame_eq_ok_iff {α : Type} {token : Token} {outcome : Except Mistake α} {result : α} :
    statement.blame token outcome = .ok result ↔ outcome = .ok result := by
  cases outcome <;> simp [blame]

theorem register_eq_ok_iff {token : Token} {found : Register} :
    statement.register labels token = .ok found ↔
      Operand.resolve labels token.text = .ok (.register found) := by
  rw [register, blame_eq_ok_iff, Operand.expectRegister_eq_ok_iff]

theorem value_eq_ok_iff {bits number : Nat} {token : Token} :
    statement.value labels bits token = .ok number ↔
      Operand.resolve labels token.text = .ok (.value number) ∧ number ≤ (lowMask bits).toNat := by
  rw [value, blame_eq_ok_iff, Operand.expectValue_eq_ok_iff]

/-- Every operand of a statement resolves to the one of the instruction at the same place. -/
def ResolvesTo (statement : Statement) (labels : LabelTable) (instr : Instr) : Prop :=
  List.Forall₂ (fun (token : Token) operand => Operand.resolve labels token.text = .ok operand)
    statement.operands instr.arguments

/-- A register and a byte are what their tokens resolve to. -/
theorem exists_register_byte (build : Register → UInt8 → Instr) {first second : Token}
    {instr : Instr}
    (encoded : (do
      let register ← statement.register labels first
      let number ← statement.value labels 8 second
      return build register (UInt8.ofNat number)) = .ok instr) :
    ∃ register byte, instr = build register byte ∧
      Operand.resolve labels first.text = .ok (.register register) ∧
      Operand.resolve labels second.text = .ok (.value byte.toNat) := by
  simp only [Except.bind_eq_ok_iff, register_eq_ok_iff, value_eq_ok_iff] at encoded
  obtain ⟨register, found, number, ⟨value, small⟩, same⟩ := encoded
  have byte : (UInt8.ofNat number).toNat = number := by
    rw [UInt8.toNat_ofNat']
    exact Nat.mod_eq_of_lt (Nat.lt_succ_of_le small)
  rw [← byte] at value
  exact ⟨register, UInt8.ofNat number, (Except.ok.inj same).symm, found, value⟩

theorem instrOf_eq_ok {opcode : Opcode} {instr : Instr}
    (encoded : statement.instrOf labels opcode = .ok instr) :
    instr.opcode = opcode ∧ statement.ResolvesTo labels instr := by
  unfold instrOf at encoded
  unfold ResolvesTo
  split at encoded
  · next operands =>
    obtain ⟨register, byte, rfl, first, second⟩ := exists_register_byte .load encoded
    rw [operands]
    exact ⟨rfl, .cons first (.cons second .nil)⟩
  · next operands =>
    obtain ⟨register, byte, rfl, first, second⟩ := exists_register_byte .store encoded
    rw [operands]
    exact ⟨rfl, .cons first (.cons second .nil)⟩
  · next operands =>
    simp only [Except.bind_eq_ok_iff, register_eq_ok_iff] at encoded
    obtain ⟨destination, first, left, second, right, third, same⟩ := encoded
    cases same
    rw [operands]
    exact ⟨rfl, .cons first (.cons second (.cons third .nil))⟩
  · next operands =>
    simp only [Except.bind_eq_ok_iff, value_eq_ok_iff] at encoded
    obtain ⟨number, ⟨first, small⟩, same⟩ := encoded
    cases same
    have address : (Address.ofLowBits number).val = number :=
      Nat.mod_eq_of_lt (Nat.lt_succ_of_le small)
    rw [operands, Instr.arguments, address]
    exact ⟨rfl, .cons first .nil⟩
  · next condition tested target operands =>
    obtain ⟨register, byte, rfl, first, second⟩ := exists_register_byte (.branch condition) encoded
    rw [operands]
    exact ⟨rfl, .cons first (.cons second .nil)⟩
  · next operands =>
    cases encoded
    rw [operands]
    exact ⟨rfl, .nil⟩
  · cases encoded

theorem instrOf_of_resolvesTo {instr : Instr} (resolves : statement.ResolvesTo labels instr) :
    statement.instrOf labels instr.opcode = .ok instr := by
  have fits_byte (byte : UInt8) : byte.toNat ≤ (lowMask 8).toNat :=
    Nat.le_of_lt_succ byte.toNat_lt
  obtain ⟨line, address, mnemonic, operands⟩ := statement
  unfold ResolvesTo at resolves
  cases instr with
  | load found byte | store found byte | branch _ found byte =>
    obtain _ | ⟨first, _ | ⟨second, _ | _⟩⟩ := resolves
    simp only [instrOf, Instr.opcode, Except.bind_eq_ok_iff, register_eq_ok_iff, value_eq_ok_iff]
    refine ⟨found, first, byte.toNat, ⟨second, fits_byte byte⟩, ?_⟩
    rw [UInt8.ofNat_toNat]
    rfl
  | arithmetic operation destination left right =>
    obtain _ | ⟨first, _ | ⟨second, _ | ⟨third, _ | _⟩⟩⟩ := resolves
    simp only [instrOf, Instr.opcode, Except.bind_eq_ok_iff, register_eq_ok_iff]
    exact ⟨destination, first, left, second, right, third, rfl⟩
  | jump target =>
    obtain _ | ⟨first, _ | _⟩ := resolves
    simp only [instrOf, Instr.opcode, Except.bind_eq_ok_iff, value_eq_ok_iff]
    refine ⟨target.val, ⟨first, Nat.le_of_lt_succ target.isLt⟩, ?_⟩
    have same : Address.ofLowBits target.val = target := Fin.ext (Nat.mod_eq_of_lt target.isLt)
    rw [same]
    rfl
  | halt =>
    cases resolves
    rfl

/-- A statement yields the instruction that its mnemonic spells and its operands make up. -/
theorem instr_eq_ok_iff {instr : Instr} :
    statement.instr labels = .ok instr ↔ instr.opcode.Spelled statement.mnemonic.text ∧
      statement.ResolvesTo labels instr := by
  unfold Statement.instr
  constructor
  · intro encoded
    split at encoded
    · next opcode named =>
      obtain ⟨rfl, resolves⟩ := instrOf_eq_ok encoded
      exact ⟨Opcode.ofMnemonic?_eq_some_iff.mp named, resolves⟩
    · cases encoded
  · rintro ⟨spelled, resolves⟩
    rw [Opcode.ofMnemonic?_eq_some_iff.mpr spelled]
    exact instrOf_of_resolvesTo resolves

/-- Against the labels of a source, the statement of a line yields the instruction that the line
reads as. -/
theorem instr_eq_ok_iff_reads {lines : List Line} {outline : Outline} (arranged : Arranged lines)
    (describes : outline.Describes lines) {line : Line}
    (content : line.content = .instruction statement.mnemonic statement.operands) {instr : Instr} :
    statement.instr outline.labels = .ok instr ↔ Reads lines line instr := by
  have resolves_iff : statement.ResolvesTo outline.labels instr ↔ List.Forall₂
      (fun (token : Token) => Denotes lines token.text) statement.operands instr.arguments := by
    refine List.forall₂_congr fun token operand member => ?_
    rw [Operand.resolve_eq_ok_iff arranged describes]
    refine and_iff_left fun number same => ?_
    rw [same] at member
    exact Nat.lt_trans (lt_of_mem_arguments member) (by decide)
  rw [instr_eq_ok_iff, resolves_iff]
  constructor
  · rintro ⟨spelled, denote⟩
    exact ⟨_, _, content, spelled, denote⟩
  · rintro ⟨mnemonic, operands, content', spelled, denote⟩
    obtain ⟨rfl, rfl⟩ := Line.Content.instruction.inj (content.symm.trans content')
    exact ⟨spelled, denote⟩

end Statement

/-! ### Programs -/

theorem Outline.encode_eq_ok_iff {outline : Outline} {words : List Word} :
    outline.encode = .ok words ↔ List.Forall₂
      (fun (statement : Statement) word => ∃ instr, statement.instr outline.labels = .ok instr ∧
        instr.encode = word) outline.statements.toList words := by
  unfold Outline.encode
  rw [List.mapM_eq_ok_iff]
  refine List.forall₂_congr fun statement word _ => ?_
  cases statement.instr outline.labels with
  | error mistake => simp [Except.map]
  | ok instr => simp [Except.map]

theorem assemble_eq_ok_iff {source : String} {program : Assembly} :
    assemble source = .ok program ↔ ∃ outline, Outline.ofSource source = .ok outline ∧
      outline.encode = .ok program.words ∧ outline.labels = program.labels := by
  unfold assemble
  simp only [Except.bind_eq_ok_iff]
  constructor
  · rintro ⟨outline, outlined, words, encoded, same⟩
    cases same
    exact ⟨outline, outlined, encoded, rfl⟩
  · rintro ⟨outline, outlined, encoded, labels⟩
    refine ⟨outline, outlined, program.words, encoded, ?_⟩
    rw [labels]
    rfl

section Program

variable {source : String} {program : Assembly}

/-- An assembled program is the translation of its source. -/
theorem translates_of_assemble (assembled : assemble source = .ok program) :
    Translates (Source.lines source) program := by
  obtain ⟨outline, outlined, encoded, labels⟩ := assemble_eq_ok_iff.mp assembled
  have arranged := Outline.exists_ofLines_iff.mp ⟨outline, outlined⟩
  have describes := Outline.describes_ofLines outlined
  have words : List.Forall₂ (fun line word => ∃ instr, Reads (Source.lines source) line instr ∧
      Instr.decode word = .ok instr ∧ instr.encode = word)
      ((Source.lines source).filter Line.isInstruction) program.words := by
    refine (List.forall₂_trans describes.statements (Outline.encode_eq_ok_iff.mp encoded)).imp ?_
    rintro line word ⟨statement, content, instr, found, rfl⟩
    exact ⟨instr, (Statement.instr_eq_ok_iff_reads arranged describes content).mp found,
      instr.decode_encode, rfl⟩
  refine ⟨?_, words, labels ▸ describes.names, labels ▸ describes.addresses⟩
  rw [← words.length_eq, List.countP_eq_length_filter]

/-- An assembled source is a program. -/
theorem wellFormed_of_assemble (assembled : assemble source = .ok program) :
    WellFormed (Source.lines source) := by
  obtain ⟨outline, outlined, -, -⟩ := assemble_eq_ok_iff.mp assembled
  refine ⟨Outline.exists_ofLines_iff.mp ⟨outline, outlined⟩, ?_⟩
  intro line member mnemonic operands content
  have isInstruction : line.isInstruction = true := by rw [Line.isInstruction, content]
  obtain ⟨word, -, instr, reads, -⟩ := List.exists_of_forall₂_left
    (translates_of_assemble assembled).words (List.mem_filter.mpr ⟨member, isInstruction⟩)
  exact (exists_reads_iff content).mp ⟨instr, reads⟩

/-- A source that is a program can be assembled. -/
theorem exists_assemble (wellFormed : WellFormed (Source.lines source)) :
    ∃ program, assemble source = .ok program := by
  obtain ⟨outline, outlined⟩ := Outline.exists_ofLines_iff.mpr wellFormed.toArranged
  have describes := Outline.describes_ofLines outlined
  have each (statement : Statement) (member : statement ∈ outline.statements.toList) :
      ∃ word instr, statement.instr outline.labels = .ok instr ∧ instr.encode = word := by
    obtain ⟨line, inLines, content⟩ := List.exists_of_forall₂_right describes.statements member
    obtain ⟨instr, reads⟩ := (exists_reads_iff content).mpr
      (wellFormed.instructions line (List.mem_filter.mp inLines).1 _ _ content)
    exact ⟨instr.encode, instr,
      (Statement.instr_eq_ok_iff_reads wellFormed.toArranged describes content).mpr reads, rfl⟩
  obtain ⟨words, encoded⟩ := List.exists_forall₂ each
  exact ⟨⟨words, outline.labels⟩, assemble_eq_ok_iff.mpr
    ⟨outline, outlined, Outline.encode_eq_ok_iff.mpr encoded, rfl⟩⟩

end Program

/-- **Exactly the sources that are programs are assembled**, and what they are assembled to is
their translation. -/
theorem exists_assemble_iff_and_translates (source : String) :
    ((∃ program, assemble source = .ok program) ↔ WellFormed (Source.lines source)) ∧
      ∀ program, assemble source = .ok program → Translates (Source.lines source) program :=
  ⟨⟨fun ⟨_, assembled⟩ => wellFormed_of_assemble assembled, exists_assemble⟩,
    fun _ => translates_of_assemble⟩

/-- A jump to a label further on is assembled to its address. -/
theorem translates_forward_jump :
    let source := "start:\n  JMP end\n  LOAD R1, 1\nend:\n  HALT\n"
    WellFormed (Source.lines source) ∧ ∃ program, assemble source = .ok program ∧
      program.words = [0x8002, 0x1101, 0xF000] ∧ Translates (Source.lines source) program := by
  intro source
  obtain ⟨wellFormed_iff, translates⟩ := exists_assemble_iff_and_translates source
  have words : (assemble source).toOption.map Assembly.words = some [0x8002, 0x1101, 0xF000] := by
    decide +kernel
  cases assembled : assemble source with
  | error mistake =>
    rw [assembled] at words
    cases words
  | ok program =>
    rw [assembled] at words
    exact ⟨wellFormed_iff.mp ⟨program, assembled⟩, program, rfl, Option.some.inj words,
      translates program assembled⟩

end Asm16
