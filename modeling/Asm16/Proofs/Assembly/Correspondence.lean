/-
**Sources that correspond line by line.**

* `Line.Content.Matches` — lines of the same kind, whose mnemonics differ in the case of letters
  only and whose other tokens are related.
* `Mistake.Corresponds`, `SourceError.Corresponds` — the same mistake, up to the token that it
  quotes, at the same place of lines at the same position.
* `Correspondence` — relations of names, of operands and of label tables under which labels are
  declared alike and operands resolve alike.
* `Correspondence.related_addLine`, `Correspondence.related_instr` — one more line is outlined
  alike, and one statement stands for the same instruction.
* `Correspondence.related_assembly` — lines that match are assembled to the same words or refused
  for the same mistake.
* `Assembly.ofLines_filter` — lines that hold nothing do not matter.
-/

import Asm16.Proofs.Assembly.Diagnosis
import Asm16.Proofs.Assembly.Position

namespace Asm16

/-- Two texts differ in the case of ASCII letters only. -/
def CaseVariant (first second : String) : Prop :=
  first.toList.map Char.toUpper = second.toList.map Char.toUpper

instance (first second : String) : Decidable (CaseVariant first second) :=
  inferInstanceAs (Decidable (_ = _))

theorem CaseVariant.of_eq {first second : String} (same : first = second) :
    CaseVariant first second :=
  congrArg (fun text : String => text.toList.map Char.toUpper) same

theorem Opcode.ofMnemonic?_congr {first second : String} (same : CaseVariant first second) :
    ofMnemonic? first = ofMnemonic? second := by
  unfold CaseVariant at same
  rw [ofMnemonic?, ofMnemonic?, same]

/-! ### Lines that match -/

/-- Lines of the same kind: labels with related names, or instructions whose mnemonics differ in the
case of letters only and whose operands are related. -/
inductive Line.Content.Matches (names operands : String → String → Prop) :
    Line.Content → Line.Content → Prop
  | blank : Matches names operands .blank .blank
  | comment : Matches names operands .comment .comment
  | label {name other : Token} (named : names name.text other.text) :
      Matches names operands (.label name) (.label other)
  | instruction {mnemonic other : Token} {tokens others : List Token}
      (spelled : CaseVariant mnemonic.text other.text)
      (each : List.Forall₂ (fun token other : Token => operands token.text other.text)
        tokens others) :
      Matches names operands (.instruction mnemonic tokens) (.instruction other others)

/-- Stretches of two lines: all of each, or the tokens at the same place. -/
inductive Line.SamePlace (line other : Line) : Span → Span → Prop
  | whole : SamePlace line other line.span other.span
  | token {token counterpart : Token}
      (place : (token, counterpart) ∈ line.content.tokens.zip other.content.tokens) :
      SamePlace line other token.span counterpart.span

/-- The same mistake, up to the token that it quotes. -/
inductive Mistake.Corresponds (quoted : String → String → Prop) : Mistake → Mistake → Prop
  | duplicateLabel {name other : String} (same : quoted name other) (first : Nat) :
      Corresponds quoted (.duplicateLabel name first) (.duplicateLabel other first)
  | unresolvedOperand {token other : String} (same : quoted token other) :
      Corresponds quoted (.unresolvedOperand token) (.unresolvedOperand other)
  | operandOutOfRange {token other : String} (same : quoted token other) (bits : Nat) :
      Corresponds quoted (.operandOutOfRange token bits) (.operandOutOfRange other bits)
  | unknownInstruction {token other : String} (same : quoted token other) :
      Corresponds quoted (.unknownInstruction token) (.unknownInstruction other)
  | wrongOperandCount (mnemonic : String) (expected found : Nat) :
      Corresponds quoted (.wrongOperandCount mnemonic expected found)
        (.wrongOperandCount mnemonic expected found)
  | operandKindMismatch (expected : OperandKind) {token other : String}
      (same : quoted token other) :
      Corresponds quoted (.operandKindMismatch expected token) (.operandKindMismatch expected other)
  | invalidLabel {name other : String} (same : quoted name other) :
      Corresponds quoted (.invalidLabel name) (.invalidLabel other)
  | labelPastEnd {name other : String} (same : quoted name other) :
      Corresponds quoted (.labelPastEnd name) (.labelPastEnd other)
  | programTooLarge (length : Nat) :
      Corresponds quoted (.programTooLarge length) (.programTooLarge length)

theorem Mistake.Corresponds.refl {quoted : String → String → Prop}
    (same : ∀ token, quoted token token) (mistake : Mistake) :
    mistake.Corresponds quoted mistake := by
  cases mistake <;> constructor <;> exact same _

/-- The same mistake, up to the token that it quotes, at the same place of lines that are at the
same position among their lines. -/
inductive SourceError.Corresponds (quoted : String → String → Prop) (lines others : List Line) :
    SourceError → SourceError → Prop
  | intro {line other : Line} (position : (line, other) ∈ lines.zip others) {span stretch : Span}
      (spans : line.SamePlace other span stretch) {mistake counterpart : Mistake}
      (mistakes : mistake.Corresponds quoted counterpart) :
      Corresponds quoted lines others ⟨line.number, span, mistake⟩
        ⟨other.number, stretch, counterpart⟩

/-- The program of the lines of a source. -/
def Assembly.ofLines (lines : List Line) : Except SourceError Assembly := do
  let outline ← Outline.ofLines lines
  let words ← outline.encode
  return ⟨words, outline.labels⟩

theorem assemble_eq_ofLines (source : String) :
    assemble source = Assembly.ofLines (Source.lines source) := rfl

/-- How the tokens of two sources are related, and what labels and operands have to have in common
for that: related names are declared alike, and related operands resolve to the same. -/
structure Correspondence where
  quoted : String → String → Prop
  names : String → String → Prop
  operands : String → String → Prop
  tables : LabelTable → LabelTable → Prop
  quoted_of_caseVariant : ∀ {first second}, CaseVariant first second → quoted first second
  quoted_of_names : ∀ {first second}, names first second → quoted first second
  quoted_of_operands : ∀ {first second}, operands first second → quoted first second
  valid : ∀ {first second}, names first second →
    Outline.isLabelName first = Outline.isLabelName second
  empty : tables .empty .empty
  insert : ∀ {table other}, tables table other → ∀ {first second}, names first second →
    ∀ address, Except.Related Eq tables (table.insert first address) (other.insert second address)
  resolve : ∀ {table other}, tables table other → ∀ {first second}, operands first second →
    Except.Related (Mistake.Corresponds quoted) Eq (Operand.resolve table first)
      (Operand.resolve other second)

namespace Correspondence

variable (link : Correspondence) {lines others : List Line}

/-! ### Operands -/

section Operands

variable {labels table : LabelTable} {token counterpart : String}

theorem related_expectRegister (tables : link.tables labels table)
    (related : link.operands token counterpart) :
    Except.Related (Mistake.Corresponds link.quoted) Eq (Operand.expectRegister labels token)
      (Operand.expectRegister table counterpart) := by
  have resolved := link.resolve tables related
  unfold Operand.expectRegister
  revert resolved
  generalize Operand.resolve labels token = outcome, Operand.resolve table counterpart = other
  rintro (⟨rfl⟩ | ⟨mistakes⟩)
  · next operand =>
      cases operand with
      | register found => exact .ok rfl
      | value number =>
        exact .error (.operandKindMismatch .register (link.quoted_of_operands related))
  · exact .error mistakes

theorem related_expectValue (bits : Nat) (tables : link.tables labels table)
    (related : link.operands token counterpart) :
    Except.Related (Mistake.Corresponds link.quoted) Eq (Operand.expectValue labels bits token)
      (Operand.expectValue table bits counterpart) := by
  have resolved := link.resolve tables related
  unfold Operand.expectValue
  revert resolved
  generalize Operand.resolve labels token = outcome, Operand.resolve table counterpart = other
  rintro (⟨rfl⟩ | ⟨mistakes⟩)
  · next operand =>
      cases operand with
      | register found =>
        exact .error (.operandKindMismatch .value (link.quoted_of_operands related))
      | value number =>
        by_cases fits : number ≤ (lowMask bits).toNat
        · simp only [fits, if_true]
          exact .ok rfl
        · simp only [fits, if_false]
          exact .error (.operandOutOfRange (link.quoted_of_operands related) bits)
  · exact .error mistakes

end Operands

/-! ### Statements -/

/-- The statements of lines that match, at the same position among their lines. -/
inductive Statements (lines others : List Line) : Statement → Statement → Prop
  | intro {line other : Line} {address target : Address} {mnemonic spelling : Token}
      {tokens counterparts : List Token} (position : (line, other) ∈ lines.zip others)
      (content : line.content = .instruction mnemonic tokens)
      (counterpart : other.content = .instruction spelling counterparts)
      (spelled : CaseVariant mnemonic.text spelling.text)
      (each : List.Forall₂ (fun token other : Token => link.operands token.text other.text)
        tokens counterparts) :
      Statements lines others ⟨line.number, address, mnemonic, tokens⟩
        ⟨other.number, target, spelling, counterparts⟩

/-- Tokens at the same place of two statements. -/
def Beside (statement other : Statement) (token counterpart : Token) : Prop :=
  (token, counterpart) ∈ (statement.mnemonic :: statement.operands).zip
    (other.mnemonic :: other.operands)

/-- Related operands at the same place of two statements. -/
def Paired (statement other : Statement) (token counterpart : Token) : Prop :=
  Beside statement other token counterpart ∧ link.operands token.text counterpart.text

variable {link} {statement other : Statement} {labels table : LabelTable}

theorem Statements.paired (statements : link.Statements lines others statement other) :
    List.Forall₂ (link.Paired statement other) statement.operands other.operands := by
  cases statements with
  | intro position content counterpart spelled each =>
    exact (List.forall₂_mem_zip each).imp fun _ _ ⟨member, related⟩ =>
      ⟨List.mem_cons_of_mem _ member, related⟩

theorem Statements.spelled (statements : link.Statements lines others statement other) :
    CaseVariant statement.mnemonic.text other.mnemonic.text := by
  cases statements with
  | intro _ _ _ spelled => exact spelled

/-- Mistakes at the same place of two statements are reported alike. -/
theorem Statements.corresponds (statements : link.Statements lines others statement other)
    {token counterpart : Token} (beside : Beside statement other token counterpart)
    {mistake reported : Mistake} (mistakes : mistake.Corresponds link.quoted reported) :
    SourceError.Corresponds link.quoted lines others ⟨statement.line, token.span, mistake⟩
      ⟨other.line, counterpart.span, reported⟩ := by
  cases statements with
  | @intro line other address target mnemonic spelling tokens counterparts position content
      counterpart =>
    refine .intro position (.token ?_) mistakes
    rw [content, counterpart]
    exact beside

theorem Statements.related_register (statements : link.Statements lines others statement other)
    (tables : link.tables labels table) {token counterpart : Token}
    (paired : link.Paired statement other token counterpart) :
    Except.Related (SourceError.Corresponds link.quoted lines others) Eq
      (statement.register labels token) (other.register table counterpart) := by
  have related := link.related_expectRegister tables paired.2
  unfold Statement.register Statement.blame
  revert related
  generalize Operand.expectRegister labels token.text = outcome,
    Operand.expectRegister table counterpart.text = result
  rintro (same | mistakes)
  · exact .ok same
  · exact .error (statements.corresponds paired.1 mistakes)

theorem Statements.related_value (statements : link.Statements lines others statement other)
    (tables : link.tables labels table) (bits : Nat) {token counterpart : Token}
    (paired : link.Paired statement other token counterpart) :
    Except.Related (SourceError.Corresponds link.quoted lines others) Eq
      (statement.value labels bits token) (other.value table bits counterpart) := by
  have related := link.related_expectValue bits tables paired.2
  unfold Statement.value Statement.blame
  revert related
  generalize Operand.expectValue labels bits token.text = outcome,
    Operand.expectValue table bits counterpart.text = result
  rintro (same | mistakes)
  · exact .ok same
  · exact .error (statements.corresponds paired.1 mistakes)

theorem Statements.related_register_byte
    (statements : link.Statements lines others statement other)
    (tables : link.tables labels table) (build : Register → UInt8 → Instr)
    {first second counterpart following : Token}
    (one : link.Paired statement other first counterpart)
    (two : link.Paired statement other second following) :
    Except.Related (SourceError.Corresponds link.quoted lines others) Eq
      (do
        let register ← statement.register labels first
        let number ← statement.value labels 8 second
        return build register (UInt8.ofNat number))
      (do
        let register ← other.register table counterpart
        let number ← other.value table 8 following
        return build register (UInt8.ofNat number)) := by
  refine (statements.related_register tables one).bind ?_
  rintro register _ rfl
  refine (statements.related_value tables 8 two).bind ?_
  rintro number _ rfl
  exact .ok rfl

/-- Having too many or too few operands is reported alike. -/
theorem Statements.corresponds_count (statements : link.Statements lines others statement other)
    (opcode : Opcode) : SourceError.Corresponds link.quoted lines others
      (statement.operandCountError opcode) (other.operandCountError opcode) := by
  have paired := statements.paired
  unfold Statement.operandCountError
  rw [paired.length_eq]
  refine statements.corresponds ?_ (.wrongOperandCount _ _ _)
  unfold Beside
  rw [List.zip_cons_cons, List.mem_cons]
  cases excess : statement.operands[opcode.arity]? with
  | none =>
    have none : other.operands[opcode.arity]? = none := by
      rw [List.getElem?_eq_none_iff] at excess ⊢
      exact paired.length_eq ▸ excess
    rw [none]
    exact .inl rfl
  | some token =>
    obtain ⟨short, -⟩ := List.getElem?_eq_some_iff.mp excess
    have counterpart := List.getElem?_eq_getElem (paired.length_eq ▸ short)
    rw [counterpart]
    exact .inr (List.mem_of_getElem? (List.getElem?_zip_eq_some.mpr ⟨excess, counterpart⟩))

/-- Statements that correspond stand for the same instruction of an operation. -/
theorem Statements.related_instrOf (statements : link.Statements lines others statement other)
    (tables : link.tables labels table) (opcode : Opcode) :
    Except.Related (SourceError.Corresponds link.quoted lines others) Eq
      (statement.instrOf labels opcode) (other.instrOf table opcode) := by
  -- Corresponding statements have as many operands, so both or neither have those of the operation.
  by_cases count : statement.operands.length = opcode.arity
  · have paired := statements.paired
    obtain ⟨line, address, mnemonic, tokens⟩ := statement
    obtain ⟨line', address', spelling, counterparts⟩ := other
    cases opcode with
    | load =>
      obtain ⟨first, second, rfl⟩ := List.length_eq_two.mp count
      obtain _ | ⟨one, _ | ⟨two, _ | _⟩⟩ := paired
      exact statements.related_register_byte tables .load one two
    | store =>
      obtain ⟨first, second, rfl⟩ := List.length_eq_two.mp count
      obtain _ | ⟨one, _ | ⟨two, _ | _⟩⟩ := paired
      exact statements.related_register_byte tables .store one two
    | arithmetic operation =>
      obtain ⟨first, second, third, rfl⟩ := List.length_eq_three.mp count
      obtain _ | ⟨one, _ | ⟨two, _ | ⟨three, _ | _⟩⟩⟩ := paired
      refine (statements.related_register tables one).bind ?_
      rintro destination _ rfl
      refine (statements.related_register tables two).bind ?_
      rintro left _ rfl
      refine (statements.related_register tables three).bind ?_
      rintro right _ rfl
      exact .ok rfl
    | jump =>
      obtain ⟨first, rfl⟩ := List.length_eq_one_iff.mp count
      obtain _ | ⟨one, _ | _⟩ := paired
      refine (statements.related_value tables 12 one).bind ?_
      rintro target _ rfl
      exact .ok rfl
    | branch condition =>
      obtain ⟨first, second, rfl⟩ := List.length_eq_two.mp count
      obtain _ | ⟨one, _ | ⟨two, _ | _⟩⟩ := paired
      exact statements.related_register_byte tables (.branch condition) one two
    | halt =>
      obtain rfl := List.length_eq_zero_iff.mp count
      cases paired
      exact .ok rfl
  · rw [Statement.instrOf_of_length_ne count,
      Statement.instrOf_of_length_ne (statements.paired.length_eq ▸ count)]
    exact .error (statements.corresponds_count opcode)

/-- **Statements that correspond stand for the same instruction**, or for none for the same
reason. -/
theorem Statements.related_instr (statements : link.Statements lines others statement other)
    (tables : link.tables labels table) :
    Except.Related (SourceError.Corresponds link.quoted lines others) Eq
      (statement.instr labels) (other.instr table) := by
  unfold Statement.instr
  rw [Opcode.ofMnemonic?_congr statements.spelled]
  cases Opcode.ofMnemonic? other.mnemonic.text with
  | some opcode => exact statements.related_instrOf tables opcode
  | none =>
    refine .error (statements.corresponds ?_ (.unknownInstruction
      (link.quoted_of_caseVariant statements.spelled)))
    exact List.mem_cons_self

/-! ### Outlines -/

variable (link)

/-- The outlines of lines that match. -/
structure Outlines (lines others : List Line) (outline counterpart : Outline) : Prop where
  labels : link.tables outline.labels counterpart.labels
  statements : List.Forall₂ (link.Statements lines others) outline.statements.toList
    counterpart.statements.toList

variable {link}

theorem Outlines.nextAddress?_eq {outline counterpart : Outline}
    (outlines : link.Outlines lines others outline counterpart) :
    outline.nextAddress? = counterpart.nextAddress? := by
  have size : outline.statements.size = counterpart.statements.size := outlines.statements.length_eq
  rw [Outline.nextAddress?, size, Outline.nextAddress?]

/-- **One more line that matches is outlined alike.** -/
theorem Outlines.related_addLine {outline counterpart : Outline}
    (outlines : link.Outlines lines others outline counterpart) (total : Nat) {line other : Line}
    (position : (line, other) ∈ lines.zip others)
    (alike : line.content.Matches link.names link.operands other.content) :
    Except.Related (SourceError.Corresponds link.quoted lines others) (link.Outlines lines others)
      (outline.addLine total line) (counterpart.addLine total other) := by
  unfold Outline.addLine
  rw [outlines.nextAddress?_eq]
  cases content : line.content with
  | blank | comment =>
    rw [content] at alike
    generalize other.content = content' at alike
    cases alike
    exact .ok outlines
  | label name =>
    cases content' : other.content with
    | blank | comment | instruction =>
      rw [content, content'] at alike
      cases alike
    | label name' =>
      rw [content, content'] at alike
      have named : link.names name.text name'.text := by
        cases alike with
        | label named => exact named
      have place : line.SamePlace other name.span name'.span :=
        .token (by rw [content, content']; exact List.mem_cons_self)
      have quoted := link.quoted_of_names named
      by_cases valid : Outline.isLabelName name'.text = true
      · simp only [link.valid named, valid, if_true]
        cases counterpart.nextAddress? with
        | none => exact .error (.intro position place (.labelPastEnd quoted))
        | some address =>
          have inserted := link.insert outlines.labels named address
          dsimp only
          revert inserted
          generalize outline.labels.insert name.text address = outcome,
            counterpart.labels.insert name'.text address = result
          rintro (tables | ⟨rfl⟩)
          · exact .ok ⟨tables, outlines.statements⟩
          · exact .error (.intro position place (.duplicateLabel quoted _))
      · simp only [link.valid named, valid]
        exact .error (.intro position place (.invalidLabel quoted))
  | instruction mnemonic tokens =>
    cases content' : other.content with
    | blank | comment | label =>
      rw [content, content'] at alike
      cases alike
    | instruction spelling counterparts =>
      rw [content, content'] at alike
      cases counterpart.nextAddress? with
      | none => exact .error (.intro position .whole (.programTooLarge total))
      | some address =>
        refine .ok ⟨outlines.labels, ?_⟩
        rw [Array.toList_push, Array.toList_push]
        cases alike with
        | instruction spelled each =>
          exact List.rel_append outlines.statements
            (.cons (.intro position content content' spelled each) .nil)

theorem Outlines.related_encode {outline counterpart : Outline}
    (outlines : link.Outlines lines others outline counterpart) :
    Except.Related (SourceError.Corresponds link.quoted lines others) Eq outline.encode
      counterpart.encode := by
  have encoded : Except.Related (SourceError.Corresponds link.quoted lines others)
      (List.Forall₂ Eq) outline.encode counterpart.encode :=
    Except.Related.mapM outlines.statements fun _ _ statements =>
      (statements.related_instr outlines.labels).map fun _ _ => congrArg Instr.encode
  rwa [List.forall₂_eq_eq_eq] at encoded

/-! ### Programs -/

theorem countP_eq_of_matches {names operands : String → String → Prop}
    (each : List.Forall₂
      (fun line other : Line => line.content.Matches names operands other.content) lines others) :
    lines.countP Line.isInstruction = others.countP Line.isInstruction := by
  induction each with
  | nil => rfl
  | @cons line other _ _ alike _ ih =>
    have same : line.isInstruction = other.isInstruction := by
      unfold Line.isInstruction
      generalize line.content = content, other.content = content' at alike
      cases alike <;> rfl
    rw [List.countP_cons, List.countP_cons, ih, same]

/-- **Lines that match are assembled alike**: to the same words, with label tables that are related,
or they are refused for the same mistake at the same place. -/
theorem related_assembly (link : Correspondence) (each : List.Forall₂
      (fun line other : Line => line.content.Matches link.names link.operands other.content)
      lines others) :
    Except.Related (SourceError.Corresponds link.quoted lines others)
      (fun program counterpart => program.words = counterpart.words ∧
        link.tables program.labels counterpart.labels)
      (Assembly.ofLines lines) (Assembly.ofLines others) := by
  unfold Assembly.ofLines Outline.ofLines
  rw [countP_eq_of_matches each]
  have start : link.Outlines lines others .empty .empty := ⟨link.empty, .nil⟩
  refine (Except.Related.foldlM (List.forall₂_mem_zip each) start ?_).bind ?_
  · rintro outline counterpart outlines line other ⟨position, alike⟩
    exact outlines.related_addLine _ position alike
  · intro outline counterpart outlines
    exact outlines.related_encode.bind fun words _ same => .ok ⟨same, outlines.labels⟩

end Correspondence

/-! ### Lines that hold nothing -/

/-- Whether a line holds a label or an instruction. -/
def Line.isSignificant (line : Line) : Bool :=
  match line.content with
  | .blank | .comment => false
  | .label _ | .instruction .. => true

theorem Outline.addLine_of_not_significant {line : Line} (empty : ¬ line.isSignificant = true)
    (total : Nat) (outline : Outline) : outline.addLine total line = .ok outline := by
  unfold Outline.addLine
  cases content : line.content with
  | blank | comment => rfl
  | label | instruction =>
    rw [Line.isSignificant, content] at empty
    exact absurd rfl empty

theorem Outline.foldlM_filter_isSignificant (total : Nat) (lines : List Line) (outline : Outline) :
    (lines.filter Line.isSignificant).foldlM (addLine total) outline =
      lines.foldlM (addLine total) outline := by
  induction lines generalizing outline with
  | nil => rfl
  | cons line lines ih =>
    by_cases significant : line.isSignificant = true
    · rw [List.filter_cons_of_pos significant, List.foldlM_cons, List.foldlM_cons]
      exact bind_congr fun next => ih next
    · rw [List.filter_cons_of_neg significant, List.foldlM_cons,
        addLine_of_not_significant significant]
      exact ih outline

/-- **Lines that hold nothing do not matter.** -/
theorem Assembly.ofLines_filter (lines : List Line) :
    ofLines (lines.filter Line.isSignificant) = ofLines lines := by
  have count : (lines.filter Line.isSignificant).countP Line.isInstruction =
      lines.countP Line.isInstruction := by
    rw [List.countP_filter]
    refine List.countP_congr fun line _ => ?_
    unfold Line.isInstruction Line.isSignificant
    cases line.content <;> simp
  rw [ofLines, Outline.ofLines, count, Outline.foldlM_filter_isSignificant]
  rfl

end Asm16
