/-
**Reading a source as a program.**

What the lines of a source stand for, said of the lines as they are, without passes and tables:

* `Source.Declares` — a label stands for the number of instruction lines before its declaration.
* `Source.Denotes` — a token is a register, else a label or a numeral.
* `Source.Arranged`, `Source.WellFormed` — the sources that are programs: the rules for labels and
  for the number of instructions, and with them the rules for each instruction line.
* `Source.Reads`, `Source.Translates` — the instruction of a line, and the words and labels of a
  source.
* `Source.exists_reads_iff` — the lines with an instruction are those whose mnemonic and operands
  obey the rules.
-/

import Asm16.Proofs.Assembly.Tokens
import Mathlib.Data.List.Forall2

namespace Asm16

/-- The name that a line declares. -/
def Line.label? (line : Line) : Option String :=
  match line.content with
  | .label name => some name.text
  | _ => none

/-- What an operation requires of an operand: a register, or a value up to a largest one. -/
inductive Slot
  | register
  | value (largest : Nat)

/-- The operands that an operation takes. Bytes are the values of `LOAD` and the addresses of
`STORE` and of conditional jumps; the address of `JMP` reaches all of memory. -/
def Opcode.slots : Opcode → List Slot
  | .load | .store | .branch _ => [.register, .value 255]
  | .arithmetic _ => [.register, .register, .register]
  | .jump => [.value 4095]
  | .halt => []

/-- The operands of an instruction. -/
def Instr.arguments : Instr → List Operand
  | .load register byte | .store register byte | .branch _ register byte =>
    [.register register, .value byte.toNat]
  | .arithmetic _ destination left right =>
    [.register destination, .register left, .register right]
  | .jump target => [.value target.val]
  | .halt => []

namespace Source

/-! ### Labels -/

/-- The names of the labels of a source, in the order of their declarations. -/
def labelNames (lines : List Line) : List String :=
  lines.filterMap Line.label?

/-- A declared label stands for the number of instruction lines before its declaration. -/
def Declares (lines : List Line) (name : String) (address : Nat) : Prop :=
  ∃ before line after, lines = before ++ line :: after ∧ line.label? = some name ∧
    before.countP Line.isInstruction = address

/-- The rules for labels and for the number of instructions. -/
structure Arranged (lines : List Line) : Prop where
  fits : lines.countP Line.isInstruction ≤ 4096
  names : ∀ name ∈ labelNames lines, IsLabelName name
  distinct : (labelNames lines).Nodup
  inMemory : ∀ name address, Declares lines name address → address < 4096

/-! ### Operands -/

/-- What a token of a source stands for. -/
inductive Denotes (lines : List Line) (token : String) : Operand → Prop
  | register {register : Register} (named : register.Named token) :
      Denotes lines token (.register register)
  | label {address : Nat} (unlikeRegisters : ∀ register : Register, ¬ register.Named token)
      (declared : Declares lines token address) : Denotes lines token (.value address)
  | numeral (unlikeRegisters : ∀ register : Register, ¬ register.Named token)
      (numeral : Numeral.IsNumeral token) :
      Denotes lines token (.value (Numeral.decimalValue token.toList))

/-- What an operation requires of an operand is fulfilled by a token. -/
def Accepts (lines : List Line) (token : Token) : Slot → Prop
  | .register => ∃ register, Denotes lines token.text (.register register)
  | .value largest => ∃ number ≤ largest, Denotes lines token.text (.value number)

/-! ### Instructions -/

/-- The sources that are programs: each instruction line has the mnemonic of an operation and
operands as the operation requires them. -/
structure WellFormed (lines : List Line) : Prop extends Arranged lines where
  instructions : ∀ line ∈ lines, ∀ mnemonic operands,
    line.content = .instruction mnemonic operands → ∃ opcode : Opcode, opcode.Spelled mnemonic.text ∧
      List.Forall₂ (Accepts lines) operands opcode.slots

/-- A line reads as an instruction whose operands are what its tokens stand for. -/
def Reads (lines : List Line) (line : Line) (instr : Instr) : Prop :=
  ∃ mnemonic operands, line.content = .instruction mnemonic operands ∧
    instr.opcode.Spelled mnemonic.text ∧
    List.Forall₂ (fun (token : Token) => Denotes lines token.text) operands instr.arguments

/-- A program is the translation of a source: its words are those of the instructions of the
source, in order, and its labels those that the source declares, in order. -/
structure Translates (lines : List Line) (program : Assembly) : Prop where
  size : program.words.length = lines.countP Line.isInstruction
  words : List.Forall₂ (fun line word => ∃ instr, Reads lines line instr ∧
    Instr.decode word = .ok instr ∧ instr.encode = word)
    (lines.filter Line.isInstruction) program.words
  names : program.labels.entries.map Prod.fst = labelNames lines
  addresses : ∀ name address,
    Declares lines name address ↔
      ∃ bound, program.labels.get? name = some bound ∧ bound.val = address

/-! ### Instructions and their operands -/

/-- The operands of an instruction fit the fields of its word. -/
theorem lt_of_mem_arguments {instr : Instr} {number : Nat}
    (member : Operand.value number ∈ instr.arguments) : number < 4096 := by
  cases instr with
  | load register byte | store register byte | branch _ register byte =>
    have := byte.toNat_lt
    obtain rfl : number = byte.toNat := by simpa [Instr.arguments] using member
    omega
  | arithmetic => simp [Instr.arguments] at member
  | jump target =>
    obtain rfl : number = target.val := by simpa [Instr.arguments] using member
    exact target.isLt
  | halt => cases member

/-- The operands of an instruction are as its operation requires them. -/
theorem accepts_slots {lines : List Line} {operands : List Token} {instr : Instr}
    (denote : List.Forall₂ (fun (token : Token) => Denotes lines token.text) operands
      instr.arguments) : List.Forall₂ (Accepts lines) operands instr.opcode.slots := by
  have accepts_byte {token : Token} {byte : UInt8}
      (denotes : Denotes lines token.text (.value byte.toNat)) :
      Accepts lines token (.value 255) :=
    ⟨byte.toNat, Nat.le_of_lt_succ byte.toNat_lt, denotes⟩
  cases instr with
  | load register byte | store register byte | branch _ register byte =>
    obtain _ | ⟨first, _ | ⟨second, _ | _⟩⟩ := denote
    exact .cons ⟨register, first⟩ (.cons (accepts_byte second) .nil)
  | arithmetic _ destination left right =>
    obtain _ | ⟨first, _ | ⟨second, _ | ⟨third, _ | _⟩⟩⟩ := denote
    exact .cons ⟨destination, first⟩ (.cons ⟨left, second⟩ (.cons ⟨right, third⟩ .nil))
  | jump target =>
    obtain _ | ⟨first, _ | _⟩ := denote
    exact .cons ⟨target.val, Nat.le_of_lt_succ target.isLt, first⟩ .nil
  | halt =>
    cases denote
    exact .nil

/-- Operands as an operation requires them are those of an instruction. -/
theorem exists_arguments {lines : List Line} {operands : List Token} {opcode : Opcode}
    (accepted : List.Forall₂ (Accepts lines) operands opcode.slots) :
    ∃ instr : Instr, instr.opcode = opcode ∧
      List.Forall₂ (fun (token : Token) => Denotes lines token.text) operands instr.arguments := by
  have denotes_byte {token : Token} {number : Nat} (small : number ≤ 255)
      (denotes : Denotes lines token.text (.value number)) :
      Denotes lines token.text (.value (UInt8.ofNat number).toNat) := by
    rwa [UInt8.toNat_ofNat', Nat.mod_eq_of_lt (by omega)]
  cases opcode with
  | load =>
    obtain _ | ⟨⟨register, first⟩, _ | ⟨⟨number, small, second⟩, _ | _⟩⟩ := accepted
    exact ⟨.load register (UInt8.ofNat number), rfl,
      .cons first (.cons (denotes_byte small second) .nil)⟩
  | store =>
    obtain _ | ⟨⟨register, first⟩, _ | ⟨⟨number, small, second⟩, _ | _⟩⟩ := accepted
    exact ⟨.store register (UInt8.ofNat number), rfl,
      .cons first (.cons (denotes_byte small second) .nil)⟩
  | arithmetic operation =>
    obtain _ | ⟨⟨destination, first⟩, _ | ⟨⟨left, second⟩, _ | ⟨⟨right, third⟩, _ | _⟩⟩⟩ := accepted
    exact ⟨.arithmetic operation destination left right, rfl,
      .cons first (.cons second (.cons third .nil))⟩
  | jump =>
    obtain _ | ⟨⟨number, small, first⟩, _ | _⟩ := accepted
    exact ⟨.jump ⟨number, Nat.lt_succ_of_le small⟩, rfl, .cons first .nil⟩
  | branch condition =>
    obtain _ | ⟨⟨register, first⟩, _ | ⟨⟨number, small, second⟩, _ | _⟩⟩ := accepted
    exact ⟨.branch condition register (UInt8.ofNat number), rfl,
      .cons first (.cons (denotes_byte small second) .nil)⟩
  | halt =>
    cases accepted
    exact ⟨.halt, rfl, .nil⟩

/-- The lines with an instruction are those whose mnemonic and operands obey the rules. -/
theorem exists_reads_iff {lines : List Line} {line : Line} {mnemonic : Token}
    {operands : List Token} (content : line.content = .instruction mnemonic operands) :
    (∃ instr, Reads lines line instr) ↔ ∃ opcode : Opcode, opcode.Spelled mnemonic.text ∧
      List.Forall₂ (Accepts lines) operands opcode.slots := by
  constructor
  · rintro ⟨instr, mnemonic', operands', content', spelled, denote⟩
    obtain ⟨rfl, rfl⟩ := Line.Content.instruction.inj (content.symm.trans content')
    exact ⟨instr.opcode, spelled, accepts_slots denote⟩
  · rintro ⟨opcode, spelled, accepted⟩
    obtain ⟨instr, rfl, denote⟩ := exists_arguments accepted
    exact ⟨instr, mnemonic, operands, content, spelled, denote⟩

end Source

end Asm16
