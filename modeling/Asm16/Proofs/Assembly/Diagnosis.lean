/-
**Which mistake is reported.**

What is wrong with a source that is no program, said of its lines as they are:

* `Source.Breaks` — the rule for labels or for the number of instructions that a line breaks, after
  the lines before it.
* `Source.Unfit`, `Source.Offends` — why a token is not the operand that an operation requires, and
  the leftmost such token of a line.
* `Source.Misread` — why an instruction line reads as no instruction.
* `Source.Fails` — the first mistake of a source: a broken rule if there is one, wherever it is, and
  else the first line that reads as no instruction.
* `Source.wellFormed_or_fails` — a source is a program or fails.
* `assemble_eq_error_iff` — assembling reports exactly the first mistake.
-/

import Asm16.Proofs.Assembly.Translation
import Mathlib.Algebra.Group.Nat.Defs

namespace Asm16

namespace Source

/-! ### Broken rules -/

/-- The rule that a line breaks after the lines before it, in a source with `total` instruction
lines. A label is at fault for its name before it is for its place, and for that before it is for
another label of its name. -/
inductive Breaks (total : Nat) (before : List Line) (line : Line) : SourceError → Prop
  | invalidLabel {name : Token} (content : line.content = .label name)
      (invalid : ¬ IsLabelName name.text) :
      Breaks total before line ⟨line.number, name.span, .invalidLabel name.text⟩
  | labelPastEnd {name : Token} (content : line.content = .label name)
      (valid : IsLabelName name.text) (full : 4096 ≤ before.countP Line.isInstruction) :
      Breaks total before line ⟨line.number, name.span, .labelPastEnd name.text⟩
  | duplicateLabel {name : Token} {first : Nat} (content : line.content = .label name)
      (valid : IsLabelName name.text) (room : before.countP Line.isInstruction < 4096)
      (declared : Declares before name.text first) :
      Breaks total before line ⟨line.number, name.span, .duplicateLabel name.text first⟩
  | programTooLarge (instruction : line.isInstruction = true)
      (full : 4096 ≤ before.countP Line.isInstruction) :
      Breaks total before line ⟨line.number, line.span, .programTooLarge total⟩

/-- A line that the rules do not admit breaks one of them. -/
theorem admits_or_breaks (total : Nat) (before : List Line) (line : Line) :
    Admits before line ∨ ∃ error, Breaks total before line error := by
  have noInstruction {name : Token} (content : line.content = .label name) :
      ¬ line.isInstruction = true := by
    rw [Line.isInstruction, content]
    exact Bool.false_ne_true
  cases content : line.content with
  | blank | comment =>
    refine .inl ⟨fun instruction => ?_, fun name label => ?_⟩
    · rw [Line.isInstruction, content] at instruction
      cases instruction
    · rw [Line.label?, content] at label
      cases label
  | label name =>
    by_cases valid : IsLabelName name.text
    · by_cases room : before.countP Line.isInstruction < 4096
      · by_cases declared : name.text ∈ labelNames before
        · obtain ⟨first, declares⟩ := mem_labelNames_iff.mp declared
          exact .inr ⟨_, .duplicateLabel content valid room declares⟩
        · refine .inl ⟨fun instruction => absurd instruction (noInstruction content), ?_⟩
          intro other label
          rw [Line.label?, content] at label
          obtain rfl := Option.some.inj label
          exact ⟨valid, room, declared⟩
      · exact .inr ⟨_, .labelPastEnd content valid (Nat.le_of_not_lt room)⟩
    · exact .inr ⟨_, .invalidLabel content valid⟩
  | instruction mnemonic operands =>
    have instruction : line.isInstruction = true := by rw [Line.isInstruction, content]
    by_cases room : before.countP Line.isInstruction < 4096
    · refine .inl ⟨fun _ => room, fun name label => ?_⟩
      rw [Line.label?, content] at label
      cases label
    · exact .inr ⟨_, .programTooLarge instruction (Nat.le_of_not_lt room)⟩

theorem arranged_nil : Arranged [] :=
  Outline.exists_ofLines_iff.mp ⟨.empty, rfl⟩

/-- If not all lines obey the rules, there is a first one that does not. -/
theorem exists_first_breaks (total : Nat) {lines : List Line} (disarranged : ¬ Arranged lines) :
    ∃ before line after error, lines = before ++ line :: after ∧ Arranged before ∧
      Breaks total before line error := by
  induction lines using List.reverseRecOn with
  | nil => exact absurd arranged_nil disarranged
  | append_singleton lines line ih =>
    by_cases arranged : Arranged lines
    · rcases admits_or_breaks total lines line with admits | ⟨error, breaks⟩
      · exact absurd (arranged_concat.mpr ⟨arranged, admits⟩) disarranged
      · exact ⟨lines, line, [], error, rfl, arranged, breaks⟩
    · obtain ⟨before, first, after, error, rfl, arranged, breaks⟩ := ih arranged
      exact ⟨before, first, after ++ [line], error, by simp, arranged, breaks⟩

/-! ### Misplaced operands -/

/-- Why a token is not what an operation requires: it stands for nothing, for a number of more than
32 bits, for a value in place of a register or for a register in place of a value, or for a value
that does not fit its field. -/
inductive Unfit (lines : List Line) (token : Token) : Slot → Mistake → Prop
  | unresolved {slot : Slot} (nothing : ∀ operand, ¬ Denotes lines token.text operand) :
      Unfit lines token slot (.unresolvedOperand token.text)
  | overlong {slot : Slot} {number : Nat} (denotes : Denotes lines token.text (.value number))
      (large : 2 ^ 32 ≤ number) : Unfit lines token slot (.operandOutOfRange token.text 32)
  | value {number : Nat} (denotes : Denotes lines token.text (.value number))
      (small : number < 2 ^ 32) :
      Unfit lines token .register (.operandKindMismatch .register token.text)
  | register {largest : Nat} {register : Register}
      (denotes : Denotes lines token.text (.register register)) :
      Unfit lines token (.value largest) (.operandKindMismatch .value token.text)
  | outOfRange {largest bits number : Nat} (denotes : Denotes lines token.text (.value number))
      (small : number < 2 ^ 32) (width : 2 ^ bits = largest + 1) (large : largest < number) :
      Unfit lines token (.value largest) (.operandOutOfRange token.text bits)

/-- The leftmost of the tokens on a line that is not what an operation requires at its place. -/
inductive Offends (lines : List Line) (number : Nat) : List Token → List Slot → SourceError → Prop
  | here {token : Token} {tokens : List Token} {slot : Slot} {slots : List Slot} {mistake : Mistake}
      (unfit : Unfit lines token slot mistake) :
      Offends lines number (token :: tokens) (slot :: slots) ⟨number, token.span, mistake⟩
  | later {token : Token} {tokens : List Token} {slot : Slot} {slots : List Slot}
      {error : SourceError} (accepted : Accepts lines token slot)
      (offends : Offends lines number tokens slots error) :
      Offends lines number (token :: tokens) (slot :: slots) error

/-- The values that an operation requires are those of a field of some width. -/
theorem exists_width {opcode : Opcode} {largest : Nat}
    (member : Slot.value largest ∈ opcode.slots) : ∃ bits, 2 ^ bits = largest + 1 := by
  cases opcode with
  | load | store | branch =>
    obtain rfl : largest = 255 := by simpa [Opcode.slots] using member
    exact ⟨8, rfl⟩
  | arithmetic => simp [Opcode.slots] at member
  | jump =>
    obtain rfl : largest = 4095 := by simpa [Opcode.slots] using member
    exact ⟨12, rfl⟩
  | halt => cases member

variable {lines : List Line}

theorem accepts_or_unfit (lines : List Line) (token : Token) {slot : Slot}
    (width : ∀ largest, slot = .value largest → ∃ bits, 2 ^ bits = largest + 1) :
    Accepts lines token slot ∨ ∃ mistake, Unfit lines token slot mistake := by
  by_cases something : ∃ operand, Denotes lines token.text operand
  · obtain ⟨operand, denotes⟩ := something
    cases operand with
    | register register =>
      cases slot with
      | register => exact .inl ⟨register, denotes⟩
      | value => exact .inr ⟨_, .register denotes⟩
    | value number =>
      by_cases small : number < 2 ^ 32
      · cases slot with
        | register => exact .inr ⟨_, .value denotes small⟩
        | value largest =>
          by_cases fits : number ≤ largest
          · exact .inl ⟨number, fits, denotes⟩
          · obtain ⟨bits, width⟩ := width largest rfl
            exact .inr ⟨_, .outOfRange denotes small width (Nat.lt_of_not_le fits)⟩
      · exact .inr ⟨_, .overlong denotes (Nat.le_of_not_lt small)⟩
  · exact .inr ⟨_, .unresolved fun operand denotes => something ⟨operand, denotes⟩⟩

/-- Tokens are what an operation requires, or there is a leftmost one that is not. -/
theorem forall₂_accepts_or_offends (lines : List Line) (number : Nat) {tokens : List Token}
    {slots : List Slot} (length : tokens.length = slots.length)
    (width : ∀ largest, Slot.value largest ∈ slots → ∃ bits, 2 ^ bits = largest + 1) :
    List.Forall₂ (Accepts lines) tokens slots ∨
      ∃ error, Offends lines number tokens slots error := by
  induction tokens generalizing slots with
  | nil =>
    obtain rfl := List.eq_nil_of_length_eq_zero length.symm
    exact .inl .nil
  | cons token tokens ih =>
    cases slots with
    | nil => cases length
    | cons slot slots =>
      have head := accepts_or_unfit lines token fun largest same =>
        width largest (List.mem_cons.mpr (.inl same.symm))
      have tail := ih (Nat.succ.inj length) fun largest member =>
        width largest (List.mem_cons_of_mem slot member)
      rcases head with accepted | ⟨mistake, unfit⟩
      · rcases tail with all | ⟨error, offends⟩
        · exact .inl (.cons accepted all)
        · exact .inr ⟨error, .later accepted offends⟩
      · exact .inr ⟨_, .here unfit⟩

/-! ### Lines that read as no instruction -/

theorem length_slots (opcode : Opcode) : opcode.slots.length = opcode.arity := by
  cases opcode <;> rfl

/-- Why a line reads as no instruction: no operation has its mnemonic, the operation takes another
number of operands, or one of its operands is not what the operation requires. -/
inductive Misread (lines : List Line) (line : Line) : SourceError → Prop
  | unknownInstruction {mnemonic : Token} {operands : List Token}
      (content : line.content = .instruction mnemonic operands)
      (unspelled : ∀ opcode : Opcode, ¬ opcode.Spelled mnemonic.text) :
      Misread lines line ⟨line.number, mnemonic.span, .unknownInstruction mnemonic.text⟩
  | wrongOperandCount {mnemonic : Token} {operands : List Token} {opcode : Opcode}
      (content : line.content = .instruction mnemonic operands)
      (spelled : opcode.Spelled mnemonic.text) (count : operands.length ≠ opcode.arity) :
      Misread lines line ⟨line.number, (operands[opcode.arity]?.getD mnemonic).span,
        .wrongOperandCount opcode.mnemonic opcode.arity operands.length⟩
  | operand {mnemonic : Token} {operands : List Token} {opcode : Opcode} {error : SourceError}
      (content : line.content = .instruction mnemonic operands)
      (spelled : opcode.Spelled mnemonic.text) (count : operands.length = opcode.arity)
      (leftmost : Offends lines line.number operands opcode.slots error) : Misread lines line error

theorem reads_or_misread (lines : List Line) {line : Line}
    (instruction : line.isInstruction = true) :
    (∃ instr, Reads lines line instr) ∨ ∃ error, Misread lines line error := by
  cases content : line.content with
  | instruction mnemonic operands =>
    rw [exists_reads_iff content]
    by_cases named : ∃ opcode : Opcode, opcode.Spelled mnemonic.text
    · obtain ⟨opcode, spelled⟩ := named
      by_cases count : operands.length = opcode.arity
      · rcases forall₂_accepts_or_offends lines line.number
          (count.trans (length_slots opcode).symm) fun _ => exists_width with all | ⟨error, offends⟩
        · exact .inl ⟨opcode, spelled, all⟩
        · exact .inr ⟨error, .operand content spelled count offends⟩
      · exact .inr ⟨_, .wrongOperandCount content spelled count⟩
    · exact .inr ⟨_, .unknownInstruction content fun opcode spelled => named ⟨opcode, spelled⟩⟩
  | blank | comment | label =>
    rw [Line.isInstruction, content] at instruction
    cases instruction

/-! ### The first mistake -/

/-- The first mistake of a source. A line that breaks a rule goes before all lines that read as no
instruction. -/
inductive Fails (lines : List Line) : SourceError → Prop
  | rule {before after : List Line} {line : Line} {error : SourceError}
      (split : lines = before ++ line :: after) (arranged : Arranged before)
      (breaks : Breaks (lines.countP Line.isInstruction) before line error) : Fails lines error
  | instruction {before after : List Line} {line : Line} {error : SourceError}
      (arranged : Arranged lines) (split : lines = before ++ line :: after)
      (readable : ∀ other ∈ before, other.isInstruction = true → ∃ instr, Reads lines other instr)
      (misread : Misread lines line error) : Fails lines error

/-- A source is a program, or it fails. -/
theorem wellFormed_or_fails (lines : List Line) :
    WellFormed lines ∨ ∃ error, Fails lines error := by
  by_cases arranged : Arranged lines
  · by_cases readable : ∃ line ∈ lines, ¬ (line.isInstruction = true →
        ∃ instr, Reads lines line instr)
    · obtain ⟨before, line, after, split, readable, unreadable⟩ := List.exists_first readable
      obtain ⟨instruction, unreadable⟩ := Classical.not_imp.mp unreadable
      rcases reads_or_misread lines instruction with reads | ⟨error, misread⟩
      · exact absurd reads unreadable
      · exact .inr ⟨error, .instruction arranged split readable misread⟩
    · refine .inl ⟨arranged, fun line member mnemonic operands content => ?_⟩
      rw [← exists_reads_iff content]
      by_contra unreadable
      have instruction : line.isInstruction = true := by rw [Line.isInstruction, content]
      exact readable ⟨line, member, fun reads => unreadable (reads instruction)⟩
  · obtain ⟨before, line, after, error, split, arranged, breaks⟩ :=
      exists_first_breaks (lines.countP Line.isInstruction) arranged
    exact .inr ⟨error, .rule split arranged breaks⟩

end Source

open Source

/-! ### Reported mistakes of operands -/

namespace Operand

variable {lines : List Line} {outline : Outline} {token : String}

theorem resolve_of_denotes (arranged : Arranged lines) (describes : outline.Describes lines)
    {operand : Operand} (denotes : Denotes lines token operand)
    (small : ∀ number, operand = .value number → number < 2 ^ 32) :
    resolve outline.labels token = .ok operand :=
  (resolve_eq_ok_iff arranged describes).mpr ⟨denotes, small⟩

/-- A token that stands for too large a number is refused for its size. -/
theorem resolve_of_overlong (arranged : Arranged lines) (describes : outline.Describes lines)
    {number : Nat} (denotes : Denotes lines token (.value number)) (large : 2 ^ 32 ≤ number) :
    resolve outline.labels token = .error (.operandOutOfRange token 32) := by
  cases denotes with
  | label _ declared =>
    have := arranged.inMemory _ _ declared
    omega
  | numeral unlikeRegisters numeral =>
    rw [Numeral.decimalValue_eq_byPlaces] at large
    exact resolve_of_resolves (.overlong unlikeRegisters
      (unbound_of_isNumeral arranged describes numeral) numeral large)

/-- A token that stands for nothing is refused. -/
theorem resolve_of_nothing (describes : outline.Describes lines)
    (nothing : ∀ operand, ¬ Denotes lines token operand) :
    resolve outline.labels token = .error (.unresolvedOperand token) := by
  have unlikeRegisters : ∀ register : Register, ¬ register.Named token :=
    fun register named => nothing _ (.register named)
  have undeclared : token ∉ labelNames lines := by
    intro member
    obtain ⟨address, declared⟩ := mem_labelNames_iff.mp member
    exact nothing _ (.label unlikeRegisters declared)
  exact resolve_of_resolves (.unresolved unlikeRegisters
    (LabelTable.get?_eq_none_iff.mp (describes.get?_eq_none_iff.mpr undeclared))
    fun numeral => nothing _ (.numeral unlikeRegisters numeral))

theorem expectRegister_of_unfit (arranged : Arranged lines) (describes : outline.Describes lines)
    {token : Token} {mistake : Mistake} (unfit : Unfit lines token .register mistake) :
    expectRegister outline.labels token.text = .error mistake := by
  unfold expectRegister
  cases unfit with
  | unresolved nothing => rw [resolve_of_nothing describes nothing]
  | overlong denotes large => rw [resolve_of_overlong arranged describes denotes large]
  | value denotes small =>
    rw [resolve_of_denotes arranged describes denotes (by rintro _ ⟨⟩; exact small)]

theorem expectValue_of_unfit (arranged : Arranged lines) (describes : outline.Describes lines)
    {token : Token} {mistake : Mistake} {bits largest : Nat}
    (mask : (lowMask bits).toNat = largest) (width : 2 ^ bits = largest + 1)
    (unfit : Unfit lines token (.value largest) mistake) :
    expectValue outline.labels bits token.text = .error mistake := by
  unfold expectValue
  cases unfit with
  | unresolved nothing => rw [resolve_of_nothing describes nothing]
  | overlong denotes large => rw [resolve_of_overlong arranged describes denotes large]
  | register denotes => rw [resolve_of_denotes arranged describes denotes nofun]
  | @outOfRange _ other _ denotes small same large =>
    obtain rfl : bits = other :=
      (Nat.pow_right_inj (Nat.lt_succ_self 1)).mp (width.trans same.symm)
    rw [resolve_of_denotes arranged describes denotes (by rintro _ ⟨⟩; exact small)]
    rw [← mask] at large
    exact if_neg (Nat.not_le_of_lt large)

end Operand

/-! ### Reported mistakes of statements -/

namespace Statement

variable {lines : List Line} {outline : Outline} {statement : Statement} {token : Token}

theorem register_of_unfit (arranged : Arranged lines) (describes : outline.Describes lines)
    {mistake : Mistake} (unfit : Unfit lines token .register mistake) :
    statement.register outline.labels token = .error ⟨statement.line, token.span, mistake⟩ := by
  rw [register, Operand.expectRegister_of_unfit arranged describes unfit]
  rfl

theorem value_of_unfit (arranged : Arranged lines) (describes : outline.Describes lines)
    {mistake : Mistake} {bits largest : Nat} (mask : (lowMask bits).toNat = largest)
    (width : 2 ^ bits = largest + 1) (unfit : Unfit lines token (.value largest) mistake) :
    statement.value outline.labels bits token = .error ⟨statement.line, token.span, mistake⟩ := by
  rw [value, Operand.expectValue_of_unfit arranged describes mask width unfit]
  rfl

theorem exists_register_of_accepts (arranged : Arranged lines)
    (describes : outline.Describes lines) (accepted : Accepts lines token .register) :
    ∃ found, statement.register outline.labels token = .ok found := by
  obtain ⟨found, denotes⟩ := accepted
  exact ⟨found, register_eq_ok_iff.mpr
    (Operand.resolve_of_denotes arranged describes denotes nofun)⟩

/-- A statement with another number of operands than its operation takes is refused for that. -/
theorem instrOf_of_length_ne {labels : LabelTable} {opcode : Opcode}
    (count : statement.operands.length ≠ opcode.arity) :
    statement.instrOf labels opcode = .error (statement.operandCountError opcode) := by
  unfold instrOf
  split
  case h_7 => rfl
  all_goals
    next operands =>
      rw [operands] at count
      exact absurd rfl count

/-- A register and a byte are refused for the leftmost of their tokens that is not what it should
be. -/
theorem register_byte_of_offends (arranged : Arranged lines) (describes : outline.Describes lines)
    (build : Register → UInt8 → Instr) {first second : Token} {error : SourceError}
    (offends : Offends lines statement.line [first, second] [.register, .value 255] error) :
    (do
      let register ← statement.register outline.labels first
      let number ← statement.value outline.labels 8 second
      return build register (UInt8.ofNat number)) = .error error := by
  cases offends with
  | here unfit =>
    rw [register_of_unfit arranged describes unfit]
    rfl
  | later accepted offends =>
    obtain ⟨found, register⟩ := exists_register_of_accepts arranged describes accepted
    cases offends with
    | here unfit =>
      rw [register, value_of_unfit arranged describes rfl rfl unfit]
      rfl
    | later _ offends => cases offends

/-- Three registers are refused for the leftmost of their tokens that is none. -/
theorem registers_of_offends (arranged : Arranged lines) (describes : outline.Describes lines)
    (build : Register → Register → Register → Instr) {first second third : Token}
    {error : SourceError} (offends : Offends lines statement.line [first, second, third]
      [.register, .register, .register] error) :
    (do
      let destination ← statement.register outline.labels first
      let left ← statement.register outline.labels second
      let right ← statement.register outline.labels third
      return build destination left right) = .error error := by
  cases offends with
  | here unfit =>
    rw [register_of_unfit arranged describes unfit]
    rfl
  | later accepted offends =>
    obtain ⟨destination, found⟩ := exists_register_of_accepts arranged describes accepted
    cases offends with
    | here unfit =>
      rw [found, register_of_unfit arranged describes unfit]
      rfl
    | later accepted offends =>
      obtain ⟨left, also_found⟩ := exists_register_of_accepts arranged describes accepted
      cases offends with
      | here unfit =>
        rw [found, also_found, register_of_unfit arranged describes unfit]
        rfl
      | later _ offends => cases offends

/-- A statement is refused for the leftmost operand that is not what its operation requires. -/
theorem instrOf_of_offends (arranged : Arranged lines) (describes : outline.Describes lines)
    {opcode : Opcode} {error : SourceError}
    (offends : Offends lines statement.line statement.operands opcode.slots error)
    (count : statement.operands.length = opcode.arity) :
    statement.instrOf outline.labels opcode = .error error := by
  unfold instrOf
  cases opcode with
  | load | store | branch =>
    obtain ⟨first, second, operands⟩ := List.length_eq_two.mp count
    rw [operands] at offends ⊢
    exact register_byte_of_offends arranged describes _ offends
  | arithmetic operation =>
    obtain ⟨first, second, third, operands⟩ := List.length_eq_three.mp count
    rw [operands] at offends ⊢
    exact registers_of_offends arranged describes _ offends
  | jump =>
    obtain ⟨target, operands⟩ := List.length_eq_one_iff.mp count
    rw [operands] at offends ⊢
    cases offends with
    | here unfit =>
      show statement.value outline.labels 12 target >>= _ = _
      rw [value_of_unfit arranged describes rfl rfl unfit]
      rfl
    | later _ offends => cases offends
  | halt =>
    have none := List.eq_nil_of_length_eq_zero count
    rw [none] at offends
    cases offends

/-- The statement of a line that reads as no instruction is refused for what is wrong with it. -/
theorem instr_of_misread (arranged : Arranged lines) (describes : outline.Describes lines)
    {line : Line} (number : line.number = statement.line)
    (content : line.content = .instruction statement.mnemonic statement.operands)
    {error : SourceError} (misread : Misread lines line error) :
    statement.instr outline.labels = .error error := by
  unfold instr
  cases misread with
  | unknownInstruction content' unspelled =>
    obtain ⟨rfl, rfl⟩ := Line.Content.instruction.inj (content.symm.trans content')
    have unnamed : Opcode.ofMnemonic? statement.mnemonic.text = none := by
      rw [Option.eq_none_iff_forall_ne_some]
      exact fun opcode named => unspelled opcode (Opcode.ofMnemonic?_eq_some_iff.mp named)
    rw [unnamed, number]
  | wrongOperandCount content' spelled count =>
    obtain ⟨rfl, rfl⟩ := Line.Content.instruction.inj (content.symm.trans content')
    rw [Opcode.ofMnemonic?_eq_some_iff.mpr spelled, number]
    exact instrOf_of_length_ne count
  | operand content' spelled count leftmost =>
    obtain ⟨rfl, rfl⟩ := Line.Content.instruction.inj (content.symm.trans content')
    rw [Opcode.ofMnemonic?_eq_some_iff.mpr spelled]
    rw [number] at leftmost
    exact instrOf_of_offends arranged describes leftmost count

end Statement

/-! ### The reported mistake of a source -/

namespace Outline

variable {lines : List Line} {outline : Outline}

/-- A line that breaks a rule is refused for that. -/
theorem addLine_of_breaks {total : Nat} {line : Line} {error : SourceError}
    (describes : outline.Describes lines) (breaks : Breaks total lines line error) :
    addLine total outline line = .error error := by
  have noAddress (full : 4096 ≤ lines.countP Line.isInstruction) :
      outline.nextAddress? = none := by
    rw [← describes.size] at full
    exact dif_neg (Nat.not_lt_of_le full)
  unfold addLine
  cases breaks with
  | invalidLabel content invalid =>
    simp only [content]
    exact if_neg fun valid => invalid (isLabelName_iff.mp valid)
  | labelPastEnd content valid full =>
    simp only [content, isLabelName_iff.mpr valid, if_true, noAddress full]
  | duplicateLabel content valid room declared =>
    obtain ⟨bound, get, rfl⟩ := (describes.addresses _ _).mp declared
    have next : outline.nextAddress? = some ⟨_, room⟩ := nextAddress?_eq_some_iff.mpr describes.size
    simp only [content, isLabelName_iff.mpr valid, if_true, next,
      LabelTable.insert_eq_error_iff.mpr get]
  | programTooLarge instruction full =>
    unfold Line.isInstruction at instruction
    split at instruction
    · next content => simp only [content, noAddress full]
    · cases instruction

/-- The statements of an outline are the instruction lines, with their numbers. -/
theorem forall₂_statements_of_foldlM {total : Nat}
    (outlined : lines.foldlM (addLine total) empty = .ok outline) :
    List.Forall₂ (fun line statement => line.number = statement.line ∧
        line.content = .instruction statement.mnemonic statement.operands)
      (lines.filter Line.isInstruction) outline.statements.toList := by
  induction lines using List.reverseRecOn generalizing outline with
  | nil =>
    cases outlined
    exact .nil
  | append_singleton lines line ih =>
    obtain ⟨prior, before, added⟩ := List.foldlM_concat_eq_ok_iff.mp outlined
    rw [List.filter_append]
    cases adds_of_addLine added with
    | other _ noInstruction =>
      rw [List.filter_cons_of_neg (by simp [noInstruction]), List.filter_nil, List.append_nil]
      exact ih before
    | label _ noInstruction =>
      have statements := ih before
      rw [List.filter_cons_of_neg (by simp [noInstruction]), List.filter_nil, List.append_nil]
      exact statements
    | instruction content =>
      rw [List.filter_cons_of_pos (by rw [Line.isInstruction, content]), List.filter_nil,
        Array.toList_push]
      exact List.rel_append (ih before) (.cons ⟨rfl, content⟩ .nil)

/-- An outline is refused for the first of its lines that reads as no instruction. -/
theorem encode_of_misread {before after : List Line} {line : Line} {error : SourceError}
    (arranged : Arranged lines) (split : lines = before ++ line :: after)
    (readable : ∀ other ∈ before, other.isInstruction = true → ∃ instr, Reads lines other instr)
    (misread : Misread lines line error) (outlined : ofLines lines = .ok outline) :
    outline.encode = .error error := by
  have describes := describes_ofLines outlined
  have statements := forall₂_statements_of_foldlM outlined
  have instruction : line.isInstruction = true := by
    cases misread with
    | unknownInstruction content | wrongOperandCount content | operand content =>
      rw [Line.isInstruction, content]
  rw [split, List.filter_append, List.filter_cons_of_pos instruction] at statements
  obtain ⟨earlier, statement, later, same, read, number, content⟩ :=
    List.exists_append_of_forall₂ statements
  unfold encode
  rw [same]
  refine List.mapM_eq_error (fun other member => ?_) ?_
  · obtain ⟨above, inBefore, -, content⟩ := List.exists_of_forall₂_right read member
    obtain ⟨inBefore, instruction⟩ := List.mem_filter.mp inBefore
    obtain ⟨instr, reads⟩ := readable above inBefore instruction
    exact ⟨instr.encode, by
      rw [(Statement.instr_eq_ok_iff_reads arranged describes content).mpr reads]
      rfl⟩
  · rw [Statement.instr_of_misread arranged describes number content misread]
    rfl

/-- Lines are refused for the first one that breaks a rule. -/
theorem ofLines_of_breaks {before after : List Line} {line : Line} {error : SourceError}
    (arranged : Arranged before)
    (breaks : Breaks ((before ++ line :: after).countP Line.isInstruction) before line error) :
    ofLines (before ++ line :: after) = .error error := by
  obtain ⟨outline, outlined⟩ := exists_foldlM _ arranged
  exact List.foldlM_eq_error outlined
    (addLine_of_breaks (describes_of_foldlM outlined).2 breaks)

end Outline

/-- A source that fails is refused for its first mistake. -/
theorem assemble_of_fails {source : String} {error : SourceError}
    (fails : Fails (Source.lines source) error) : assemble source = .error error := by
  unfold assemble Outline.ofSource
  cases fails with
  | rule split arranged breaks =>
    rw [split] at breaks ⊢
    rw [Outline.ofLines_of_breaks arranged breaks]
    rfl
  | instruction arranged split readable misread =>
    obtain ⟨outline, outlined⟩ := Outline.exists_ofLines_iff.mpr arranged
    have refused := Outline.encode_of_misread arranged split readable misread outlined
    rw [outlined]
    show outline.encode >>= _ = _
    rw [refused]
    rfl

/-- **Assembling reports exactly the first mistake of a source.** -/
theorem assemble_eq_error_iff {source : String} {error : SourceError} :
    assemble source = .error error ↔ Fails (Source.lines source) error := by
  refine ⟨fun refused => ?_, assemble_of_fails⟩
  rcases wellFormed_or_fails (Source.lines source) with wellFormed | ⟨first, fails⟩
  · obtain ⟨program, assembled⟩ := exists_assemble wellFormed
    rw [refused] at assembled
    cases assembled
  · have same := assemble_of_fails fails
    rw [refused] at same
    cases same
    exact fails

/-- The second declaration of a label is reported, not the unknown instruction before it. -/
example : (match assemble "MOV R1\nx:\nx:\n" with
    | .error error => some error
    | .ok _ => none) = some ⟨3, ⟨10, 1⟩, .duplicateLabel "x" 1⟩ := by
  decide +kernel

end Asm16
