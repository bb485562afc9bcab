/-
**Laying out instructions as source.**

* `Source.Spaced`, `Source.Written`, `Source.Remark` — the freedom there is in writing a line: the
  separators around its words, the case of their letters, and a comment.
* `Source.Layout` — the texts that lay out a list of instructions, with blank lines and comments
  between them; `Source.layout_listing` says that one line for each instruction is such a text.
* `Source.Holds` — lines that declare no label and read as a list of instructions, as by
  `Source.holds_of_layout` the lines of its layouts do.
* `assemble_layout_and_listing` — every layout is assembled to the words of its instructions, and
  the listing of an assembled program to the words of the program.
-/

import Asm16.Proofs.Assembly.Lexing
import Asm16.Proofs.Assembly.Printing
import Asm16.Proofs.Assembly.Translation

namespace Asm16

namespace Source

/-! ### Layouts -/

/-- Separators on one line. -/
def IsGap (gap : List Char) : Prop :=
  ∀ c ∈ gap, isSeparator c = true ∧ c ≠ '\n'

instance (gap : List Char) : Decidable (IsGap gap) :=
  List.decidableBAll _ gap

/-- A text with the given words in order: at least one separator between them, and any number of
them at the end. -/
inductive Spaced : List (List Char) → List Char → Prop
  | last {word gap : List Char} (separators : IsGap gap) : Spaced [word] (word ++ gap)
  | cons {word gap text : List Char} {words : List (List Char)} (nonempty : gap ≠ [])
      (separators : IsGap gap) (rest : Spaced words text) :
      Spaced (word :: words) (word ++ (gap ++ text))

/-- A line before its comment: blanks, or the words that an instruction is printed with, their
letters in either case. -/
inductive Written : Option Instr → List Char → Prop
  | blank {text : List Char} (blanks : ∀ c ∈ text, Text.isBlank c = true ∧ c ≠ '\n') :
      Written none text
  | instruction {instr : Instr} {written : List (List Char)} {margin text : List Char}
      (spelled : List.Forall₂ SameLetters instr.printed written) (separators : IsGap margin)
      (spaced : Spaced written text) : Written (some instr) (margin ++ text)

/-- A comment at the end of a line, if there is one. -/
inductive Remark : List Char → Prop
  | none : Remark []
  | some {remark : List Char} (oneLine : '\n' ∉ remark) : Remark ('#' :: remark)

/-- A text that lays out instructions: on each line one of them or none. The last line need not end
with a line feed. -/
inductive Layout : List Instr → List Char → Prop
  | last {instr? : Option Instr} {text remark : List Char} (written : Written instr? text)
      (comment : Remark remark) : Layout instr?.toList (text ++ remark)
  | line {instr? : Option Instr} {text remark : List Char} (written : Written instr? text)
      (comment : Remark remark) {instrs : List Instr} {rest : List Char}
      (layout : Layout instrs rest) :
      Layout (instr?.toList ++ instrs) ((text ++ remark) ++ '\n' :: rest)

/-- One line for each instruction, as it is printed. -/
def listing (instrs : List Instr) : String :=
  String.join (instrs.map fun instr => instr.text ++ "\n")

/-! ### Characters of a line -/

/-- The characters of a line before its comment. -/
def IsWritten (c : Char) : Prop :=
  (isSeparator c = true ∧ c ≠ '\n') ∨ c.isAlphanum = true

theorem IsWritten.ne {c : Char} (isWritten : IsWritten c) : c ≠ '\n' ∧ c ≠ '#' ∧ c ≠ ':' := by
  rcases isWritten with ⟨separator, ne⟩ | alphanumeric
  · refine ⟨ne, ?_, ?_⟩ <;> rintro rfl <;> cases separator
  · refine ⟨?_, ?_, ?_⟩ <;> rintro rfl <;> cases alphanumeric

theorem Spaced.isWritten {words : List (List Char)} {text : List Char} (spaced : Spaced words text)
    (each : ∀ word ∈ words, IsWord word) : ∀ c ∈ text, IsWritten c := by
  induction spaced with
  | last separators =>
    intro c member
    rcases List.mem_append.mp member with inWord | inGap
    · exact .inr ((each _ (by simp)).2 c inWord)
    · exact .inl (separators c inGap)
  | cons _ separators _ ih =>
    intro c member
    rcases List.mem_append.mp member with inWord | member
    · exact .inr ((each _ (by simp)).2 c inWord)
    · rcases List.mem_append.mp member with inGap | inText
      · exact .inl (separators c inGap)
      · exact ih (fun word inRest => each word (by simp [inRest])) c inText

theorem isWord_of_spelled {instr : Instr} {written : List (List Char)}
    (spelled : List.Forall₂ SameLetters instr.printed written) : ∀ word ∈ written, IsWord word := by
  intro word member
  obtain ⟨printed, inPrinted, same⟩ := List.exists_of_forall₂_right spelled member
  exact same.isWord (isWord_printed inPrinted)

theorem Written.isWritten {instr? : Option Instr} {text : List Char}
    (written : Written instr? text) : ∀ c ∈ text, IsWritten c := by
  cases written with
  | blank blanks =>
    exact fun c member => .inl ⟨isSeparator_of_isBlank (blanks c member).1, (blanks c member).2⟩
  | instruction spelled separators spaced =>
    intro c member
    rcases List.mem_append.mp member with inMargin | inText
    · exact .inl (separators c inMargin)
    · exact spaced.isWritten (isWord_of_spelled spelled) c inText

/-- The words of a spaced text are the ones it has. -/
theorem words_of_spaced {written : List (List Char)} {text : List Char}
    (spaced : Spaced written text) (each : ∀ word ∈ written, IsWord word) :
    words text = written := by
  have one {word : List Char} (isWord : IsWord word) : words word = [word] :=
    words_of_word isWord.1 fun c member => isSeparator_of_isAlphanum (isWord.2 c member)
  induction spaced with
  | last separators =>
    rw [words_append_separators fun c member => (separators c member).1, one (each _ (by simp))]
  | @cons word gap text written nonempty separators _ ih =>
    obtain ⟨c, gap, rfl⟩ := List.exists_cons_of_ne_nil nonempty
    have inGap : ∀ next ∈ gap, isSeparator next = true :=
      fun next member => (separators next (by simp [member])).1
    rw [List.cons_append, words_append_separator (separators c (by simp)).1, one (each _ (by simp)),
      words_separators_append inGap, ih fun word inRest => each word (by simp [inRest])]
    rfl

/-! ### Lines of a layout -/

/-- Lines that declare no label and read as the given instructions, whatever labels there are. -/
structure Holds (lines : List Line) (instrs : List Instr) : Prop where
  unlabelled : ∀ line ∈ lines, line.label? = none
  reads : ∀ scope, List.Forall₂ (Reads scope) (lines.filter Line.isInstruction) instrs

theorem Holds.cons {line : Line} {lines : List Line} {instrs others : List Instr}
    (first : Holds [line] instrs) (rest : Holds lines others) :
    Holds (line :: lines) (instrs ++ others) where
  unlabelled := by
    rw [List.forall_mem_cons]
    exact ⟨first.unlabelled line (by simp), rest.unlabelled⟩
  reads scope := by
    rw [← List.singleton_append, List.filter_append]
    exact List.rel_append (first.reads scope) (rest.reads scope)

theorem holds_blank {line : Line} (content : line.content = .blank ∨ line.content = .comment) :
    Holds [line] [] := by
  have noInstruction : line.isInstruction = false := by
    rcases content with content | content <;> rw [Line.isInstruction, content]
  have noLabel : line.label? = none := by
    rcases content with content | content <;> rw [Line.label?, content]
  refine ⟨fun other member => List.mem_singleton.mp member ▸ noLabel, fun scope => ?_⟩
  rw [List.filter_cons_of_neg (by simp [noInstruction])]
  exact .nil

theorem holds_instruction {line : Line} {instr : Instr} {mnemonic : Token} {operands : List Token}
    (content : line.content = .instruction mnemonic operands)
    (spelled : instr.opcode.Spelled mnemonic.text)
    (denote : ∀ scope, List.Forall₂ (fun (token : Token) => Denotes scope token.text) operands
      instr.arguments) : Holds [line] [instr] := by
  have isInstruction : line.isInstruction = true := by rw [Line.isInstruction, content]
  have noLabel : line.label? = none := by rw [Line.label?, content]
  refine ⟨fun other member => List.mem_singleton.mp member ▸ noLabel, fun scope => ?_⟩
  rw [List.filter_cons_of_pos isInstruction]
  exact .cons ⟨mnemonic, operands, content, spelled, denote scope⟩ .nil

/-- The code of a line is what is written before its comment, up to line ends. -/
theorem exists_code_append {instr? : Option Instr} {text remark : List Char}
    (written : Written instr? text) (comment : Remark remark) :
    ∃ ends, text = code (Text.dropEndWhile isLineEnd (text ++ remark)) ++ ends ∧
      ∀ c ∈ ends, isLineEnd c = true := by
  have noHash : '#' ∉ text := fun member => (written.isWritten _ member).ne.2.1 rfl
  cases comment with
  | none =>
    obtain ⟨ends, split, lineEnds⟩ := Text.exists_dropEndWhile_append isLineEnd text
    refine ⟨ends, ?_, lineEnds⟩
    rwa [List.append_nil, code_of_no_hash]
    intro member
    rw [split] at noHash
    exact noHash (List.mem_append_left _ member)
  | some =>
    refine ⟨[], ?_, by simp⟩
    rw [Text.dropEndWhile_append_cons (by decide), code_append_hash noHash, List.append_nil]

theorem isSeparator_of_isLineEnd {c : Char} (lineEnd : isLineEnd c = true) :
    isSeparator c = true := by
  rw [isLineEnd, Bool.or_eq_true, beq_iff_eq, beq_iff_eq] at lineEnd
  rcases lineEnd with rfl | rfl <;> rfl

/-- A line of a layout holds its instruction, if there is one. -/
theorem holds_written {instr? : Option Instr} {text remark : List Char}
    (written : Written instr? text) (comment : Remark remark) {line : Line} {offset : Nat}
    (content : line.content = classify offset (Text.dropEndWhile isLineEnd (text ++ remark))) :
    Holds [line] instr?.toList := by
  obtain ⟨ends, split, lineEnds⟩ := exists_code_append written comment
  have inText {c : Char} (member : c ∈ code (Text.dropEndWhile isLineEnd (text ++ remark))) :
      c ∈ text := split ▸ List.mem_append_left ends member
  cases written with
  | blank blanks =>
    exact holds_blank (content ▸ classify_of_blank (fun c member => (blanks c (inText member)).1) _)
  | @instruction instr words margin text spelled separators spaced =>
    have written : Written (some instr) (margin ++ text) := .instruction spelled separators spaced
    have noColon : ':' ∉ code (Text.dropEndWhile isLineEnd ((margin ++ text) ++ remark)) :=
      fun member => (written.isWritten _ (inText member)).ne.2.2 rfl
    have found : Source.words (code (Text.dropEndWhile isLineEnd ((margin ++ text) ++ remark))) =
        words := by
      rw [← words_append_separators fun c member => isSeparator_of_isLineEnd (lineEnds c member),
        ← split, words_separators_append fun c member => (separators c member).1]
      exact words_of_spaced spaced (isWord_of_spelled spelled)
    obtain ⟨mnemonic, operands, sameMnemonic, sameOperands, rfl⟩ :=
      List.forall₂_cons_left_iff.mp spelled
    obtain ⟨first, rest, isInstruction, first_text, rest_texts⟩ :=
      classify_of_words noColon found offset
    refine holds_instruction (content.trans isInstruction) ?_ fun scope => ?_
    · rw [Opcode.Spelled, first_text, String.toList_ofList]
      exact sameMnemonic
    · have denote : List.Forall₂ (Denotes scope) (operands.map String.ofList)
          instr.arguments := by
        rw [operands_eq, List.forall₂_map_left_iff] at sameOperands
        rw [List.forall₂_map_left_iff]
        exact (sameOperands.imp fun _ _ => denotes_of_sameLetters scope).flip
      rwa [← rest_texts, List.forall₂_map_left_iff] at denote

theorem oneLine_of_written {instr? : Option Instr} {text remark : List Char}
    (written : Written instr? text) (comment : Remark remark) : '\n' ∉ text ++ remark := by
  intro member
  rcases List.mem_append.mp member with inText | inRemark
  · exact (written.isWritten _ inText).ne.1 rfl
  · cases comment with
    | none => cases inRemark
    | some oneLine => exact oneLine (List.mem_of_ne_of_mem (by decide) inRemark)

/-- The text of an instruction is not empty. -/
theorem Written.eq_none {instr? : Option Instr} (written : Written instr? []) : instr? = none := by
  generalize empty : ([] : List Char) = text at written
  cases written with
  | blank => rfl
  | @instruction instr words margin text spelled separators spaced =>
    have noWords := words_of_spaced spaced (isWord_of_spelled spelled)
    rw [(List.nil_eq_append_iff.mp empty).2] at noWords
    subst noWords
    cases spelled

/-- **The lines of a layout hold its instructions.** -/
theorem holds_of_layout {instrs : List Instr} {text : List Char} (layout : Layout instrs text)
    (number offset : Nat) : Holds (linesOfPieces number offset (Text.lines text)) instrs := by
  -- Each line is classified at its own offset, so that the induction is for all of them.
  induction layout generalizing number offset with
  | @last instr? text remark written comment =>
    -- A text that ends with a line feed has no line after it.
    by_cases empty : text ++ remark = []
    · obtain ⟨rfl, rfl⟩ := List.append_eq_nil_iff.mp empty
      rw [written.eq_none]
      exact ⟨by simp [Text.lines, linesOfPieces], fun _ => .nil⟩
    · rw [Text.lines_of_oneLine (oneLine_of_written written comment) empty]
      exact holds_written written comment rfl
  | @line instr? text remark written comment instrs rest _ ih =>
    rw [Text.lines_append_feed (oneLine_of_written written comment)]
    have content : classify offset (Text.dropEndWhile isLineEnd ((text ++ remark) ++ ['\n'])) =
        classify offset (Text.dropEndWhile isLineEnd (text ++ remark)) :=
      congrArg (classify offset) (List.rdropWhile_concat_pos _ _ _ rfl)
    exact (holds_written written comment content).cons (ih _ _)

/-! ### Listings -/

theorem spaced_word (word : List Char) : Spaced [word] word := by
  have spaced : Spaced [word] (word ++ []) := .last (by decide)
  rwa [List.append_nil] at spaced

theorem spaced_intercalate {gap : List Char} (nonempty : gap ≠ []) (separators : IsGap gap)
    (word : List Char) (words : List (List Char)) :
    Spaced (word :: words) (gap.intercalate (word :: words)) := by
  induction words generalizing word with
  | nil =>
    rw [List.intercalate_singleton]
    exact spaced_word word
  | cons next words ih =>
    rw [List.intercalate_cons_cons, List.append_assoc]
    exact .cons nonempty separators (ih next)

/-- An operation with operands is printed as its words. -/
theorem spaced_textWith (opcode : Opcode) (operands : List Operand) :
    Spaced ((opcode.printedWith operands).map String.toList)
      (opcode.textWith operands).toList := by
  unfold Opcode.printedWith Opcode.textWith
  cases operands with
  | nil => exact spaced_word _
  | cons operand operands =>
    simp only [String.toList_append, String.toList_intercalate, List.append_assoc]
    refine .cons (by decide) (by decide) ?_
    exact spaced_intercalate (by decide) (by decide) _ _

/-- The words of an operation with operands are the ones it is printed with. -/
theorem words_textWith (opcode : Opcode) (operands : List Operand) :
    words (opcode.textWith operands).toList = (opcode.printedWith operands).map String.toList :=
  words_of_spaced (spaced_textWith opcode operands) (isWord_printedWith opcode operands)

/-- An instruction is printed as its words. -/
theorem spaced_text (instr : Instr) :
    Spaced (instr.printed.map String.toList) instr.text.toList := by
  rw [Instr.printed, operands_eq, text_eq]
  exact spaced_textWith instr.opcode instr.arguments

/-- One line for each instruction, as it is printed, lays the instructions out. -/
theorem layout_listing (instrs : List Instr) : Layout instrs (listing instrs).toList := by
  induction instrs with
  | nil =>
    have blank : Written none [] := .blank (by simp)
    exact .last blank .none
  | cons instr instrs ih =>
    have spelled : List.Forall₂ SameLetters instr.printed (instr.printed.map String.toList) := by
      rw [List.forall₂_map_right_iff, List.forall₂_same]
      exact fun printed _ => .refl printed
    have written : Written (some instr) ([] ++ instr.text.toList) :=
      .instruction spelled (by decide) (spaced_text instr)
    have layout := Layout.line written .none ih
    unfold listing at layout ⊢
    rw [String.toList_join, List.flatMap_map] at layout ⊢
    simpa using layout

/-! ### Programs -/

theorem Holds.arranged {lines : List Line} {instrs : List Instr} (holds : Holds lines instrs)
    (fits : instrs.length ≤ 4096) : Arranged lines := by
  have noLabels : labelNames lines = [] := by
    rw [labelNames, List.filterMap_eq_nil_iff]
    exact holds.unlabelled
  have noneDeclared (name : String) (address : Nat) : ¬ Declares lines name address := by
    intro declared
    have member := mem_labelNames_iff.mpr ⟨address, declared⟩
    rw [noLabels] at member
    cases member
  refine ⟨?_, by simp [noLabels], by simp [noLabels],
    fun name address declared => absurd declared (noneDeclared name address)⟩
  rw [List.countP_eq_length_filter, (holds.reads []).length_eq]
  exact fits

/-- Lines that hold instructions are assembled to the words of these. -/
theorem assemble_of_holds {source : String} {instrs : List Instr}
    (holds : Holds (Source.lines source) instrs) (fits : instrs.length ≤ 4096) :
    (assemble source).map Assembly.words = .ok (instrs.map Instr.encode) := by
  have arranged := holds.arranged fits
  obtain ⟨outline, outlined⟩ := Outline.exists_ofLines_iff.mpr arranged
  have describes := Outline.describes_ofLines outlined
  have statements : List.Forall₂ (fun (statement : Statement) instr =>
      statement.instr outline.labels = .ok instr) outline.statements.toList instrs := by
    refine (List.forall₂_trans describes.statements.flip (holds.reads (lines source))).imp ?_
    rintro statement instr ⟨line, content, reads⟩
    exact (Statement.instr_eq_ok_iff_reads arranged describes content).mpr reads
  have encoded : outline.encode = .ok (instrs.map Instr.encode) := by
    rw [Outline.encode_eq_ok_iff, List.forall₂_map_right_iff]
    exact statements.imp fun statement instr found => ⟨instr, found, rfl⟩
  have assembled : assemble source = .ok ⟨instrs.map Instr.encode, outline.labels⟩ :=
    assemble_eq_ok_iff.mpr ⟨outline, outlined, encoded, rfl⟩
  rw [assembled]
  rfl

end Source

/-- **Every layout is assembled to the words of its instructions**, and the listing of an assembled
program to the words of the program. -/
theorem assemble_layout_and_listing :
    (∀ (instrs : List Instr) (source : String), Source.Layout instrs source.toList →
      instrs.length ≤ 4096 →
      (assemble source).map Assembly.words = .ok (instrs.map Instr.encode)) ∧
    ∀ (source : String) (program : Assembly), assemble source = .ok program → ∃ instrs,
      List.Forall₂ (fun word instr => Instr.decode word = .ok instr ∧ instr.encode = word)
        program.words instrs ∧
      (assemble (Source.listing instrs)).map Assembly.words = .ok program.words := by
  have layouts {instrs : List Instr} {source : String}
      (layout : Source.Layout instrs source.toList) (fits : instrs.length ≤ 4096) :
      (assemble source).map Assembly.words = .ok (instrs.map Instr.encode) :=
    Source.assemble_of_holds (Source.holds_of_layout layout 1 0) fits
  refine ⟨fun _ _ => layouts, fun source program assembled => ?_⟩
  have translates := translates_of_assemble assembled
  have each (word : Word) (member : word ∈ program.words) :
      ∃ instr, Instr.decode word = .ok instr ∧ instr.encode = word := by
    obtain ⟨line, -, instr, -, decoded⟩ := List.exists_of_forall₂_right translates.words member
    exact ⟨instr, decoded⟩
  obtain ⟨instrs, decoded⟩ := List.exists_forall₂ each
  have words : instrs.map Instr.encode = program.words := by
    rw [← List.forall₂_eq_eq_eq, List.forall₂_map_left_iff]
    exact (decoded.imp fun _ _ same => same.2).flip
  have fits : instrs.length ≤ 4096 := by
    rw [← decoded.length_eq, translates.size]
    exact (wellFormed_of_assemble assembled).fits
  exact ⟨instrs, decoded, words ▸ layouts (Source.layout_listing instrs) fits⟩

/-- Two instructions with untidy separators, a comment and a blank line between them, the last line
without a line feed. -/
theorem assemble_untidy_layout :
    Source.Layout [.load ⟨1⟩ 5, .halt] "\u00a0,load\u3000r1,,5 # five\r\n\t\nHalt\r".toList ∧
      (assemble "\u00a0,load\u3000r1,,5 # five\r\n\t\nHalt\r").map Assembly.words =
        .ok [0x1105, 0xF000] ∧
      ∃ program instrs, assemble "\u00a0,load\u3000r1,,5 # five\r\n\t\nHalt\r" = .ok program ∧
        List.Forall₂ (fun word instr => Instr.decode word = .ok instr ∧ instr.encode = word)
          program.words instrs ∧
        (assemble (Source.listing instrs)).map Assembly.words = .ok program.words := by
  obtain ⟨layouts, listings⟩ := assemble_layout_and_listing
  have load : Source.Written (some (.load ⟨1⟩ 5)) "\u00a0,load\u3000r1,,5 ".toList := by
    have spelled : List.Forall₂ Source.SameLetters (Instr.load ⟨1⟩ 5).printed
        ["load".toList, "r1".toList, "5".toList] :=
      .cons (by decide) (.cons (by decide) (.cons (by decide) .nil))
    have margin : Source.IsGap "\u00a0,".toList := by decide
    have spaced : Source.Spaced ["load".toList, "r1".toList, "5".toList]
        ("load".toList ++ ("\u3000".toList ++ ("r1".toList ++
          (",,".toList ++ ("5".toList ++ " ".toList))))) :=
      .cons (by decide) (by decide) (.cons (by decide) (by decide) (.last (by decide)))
    exact .instruction spelled margin spaced
  have halt : Source.Written (some .halt) "Halt\r".toList := by
    have spelled : List.Forall₂ Source.SameLetters Instr.halt.printed ["Halt".toList] :=
      .cons (by decide) .nil
    have margin : Source.IsGap [] := by decide
    have spaced : Source.Spaced ["Halt".toList] ("Halt".toList ++ "\r".toList) :=
      .last (by decide)
    exact .instruction spelled margin spaced
  have tab : Source.Written none ['\t'] := .blank (List.forall_mem_singleton.mpr (by decide))
  have five : Source.Remark ('#' :: " five\r".toList) := .some (by decide)
  have layout : Source.Layout [.load ⟨1⟩ 5, .halt]
      "\u00a0,load\u3000r1,,5 # five\r\n\t\nHalt\r".toList :=
    .line load five (.line tab .none (.last halt .none))
  have assembled := layouts _ _ layout (by decide)
  refine ⟨layout, assembled, ?_⟩
  cases outcome : assemble "\u00a0,load\u3000r1,,5 # five\r\n\t\nHalt\r" with
  | error mistake =>
    rw [outcome] at assembled
    cases assembled
  | ok program =>
    obtain ⟨instrs, decoded, listed⟩ := listings _ program outcome
    exact ⟨program, instrs, rfl, decoded, listed⟩

end Asm16
