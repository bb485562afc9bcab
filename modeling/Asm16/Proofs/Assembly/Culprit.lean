/-
**Every mistake is reported where it is.**

* `Mistake.label?`, `Mistake.operand?` — the label or the operand that a mistake is about.
* `Source.Culprit` — the text at fault for an error on a line: the name of its label, its mnemonic,
  one of its operands or the whole of it.
* `Source.Pinpoints` — an error points at a text within a line of the source.
* `Source.exists_culprit` — the first mistake of a source is reported at the text at fault for it.
* `culprit_of_assemble` — a source that is refused is refused with an error that points at the text
  at fault.
-/

import Asm16.Proofs.Assembly.Diagnosis
import Asm16.Proofs.Assembly.Scanning

namespace Asm16

namespace Mistake

/-- The name of the label that a mistake is about. -/
def label? : Mistake → Option String
  | invalidLabel name | labelPastEnd name | duplicateLabel name _ => some name
  | _ => none

/-- The operand that a mistake is about. -/
def operand? : Mistake → Option String
  | unresolvedOperand token | operandOutOfRange token _ | operandKindMismatch _ token => some token
  | _ => none

end Mistake

namespace Source

/-- The text at fault for an error on a line with the given body. A wrong number of operands is the
fault of the first one too many or, if there are too few, of the mnemonic; a program is too large
from its 4097th instruction line on. -/
inductive Culprit (lines : List Line) (line : Line) (body : List Char) :
    SourceError → List Char → Prop
  | label {name : Token} {mistake : Mistake} (content : line.content = .label name)
      (about : mistake.label? = some name.text) :
      Culprit lines line body ⟨line.number, name.span, mistake⟩ name.text.toList
  | mnemonic {mnemonic : Token} {operands : List Token}
      (content : line.content = .instruction mnemonic operands) :
      Culprit lines line body
        ⟨line.number, mnemonic.span, .unknownInstruction mnemonic.text⟩ mnemonic.text.toList
  | operand {mnemonic operand : Token} {operands : List Token} {mistake : Mistake}
      (content : line.content = .instruction mnemonic operands) (member : operand ∈ operands)
      (about : mistake.operand? = some operand.text) :
      Culprit lines line body ⟨line.number, operand.span, mistake⟩ operand.text.toList
  | tooMany {mnemonic surplus : Token} {operands : List Token} {opcode : Opcode}
      (content : line.content = .instruction mnemonic operands)
      (spelled : opcode.Spelled mnemonic.text) (first : operands[opcode.arity]? = some surplus) :
      Culprit lines line body ⟨line.number, surplus.span,
        .wrongOperandCount opcode.mnemonic opcode.arity operands.length⟩ surplus.text.toList
  | tooFew {mnemonic : Token} {operands : List Token} {opcode : Opcode}
      (content : line.content = .instruction mnemonic operands)
      (spelled : opcode.Spelled mnemonic.text) (few : operands.length < opcode.arity) :
      Culprit lines line body ⟨line.number, mnemonic.span,
        .wrongOperandCount opcode.mnemonic opcode.arity operands.length⟩ mnemonic.text.toList
  | wholeLine {before after : List Line} {total : Nat} (split : lines = before ++ line :: after)
      (instruction : line.isInstruction = true)
      (count : before.countP Line.isInstruction = 4096) :
      Culprit lines line body ⟨line.number, line.span, .programTooLarge total⟩ body

/-- An error points at a text within a line of the source, without the characters that end the line.
The line is numbered by the line feeds before the text, counted from one. -/
structure Pinpoints (source : String) (error : SourceError)
    (earlier lead text rest ending later : List Char) : Prop where
  line : IsLine source.toList earlier (lead ++ (text ++ rest)) ending later
  covers : error.span.Covers source (earlier ++ lead) text (rest ++ (ending ++ later))
  number : error.line = (earlier ++ lead).count '\n' + 1

/-! ### The text at fault -/

/-- An error is reported at a token that is at fault, or at a line that is. -/
def Blames (lines : List Line) (line : Line) (error : SourceError) : Prop :=
  (∃ token ∈ line.content.tokens, error.span = token.span ∧
    ∀ body, Culprit lines line body error token.text.toList) ∨
  (error.span = line.span ∧ ∀ body, Culprit lines line body error body)

variable {lines : List Line} {line : Line} {error : SourceError}

theorem Culprit.line_eq {body text : List Char} (culprit : Culprit lines line body error text) :
    error.line = line.number := by
  cases culprit <;> rfl

theorem blames_of_breaks {before after : List Line} {total : Nat}
    (split : lines = before ++ line :: after) (arranged : Arranged before)
    (breaks : Breaks total before line error) : Blames lines line error := by
  cases breaks with
  | invalidLabel content | labelPastEnd content | duplicateLabel content =>
    refine .inl ⟨_, ?_, rfl, fun body => .label content rfl⟩
    rw [content]
    exact List.mem_singleton.mpr rfl
  | programTooLarge instruction full =>
    have count := Nat.le_antisymm arranged.fits full
    exact .inr ⟨rfl, fun body => .wholeLine split instruction count⟩

/-- The operand that an error is reported at is the one that the mistake is about. -/
theorem exists_operand_of_offends {number : Nat} {operands : List Token} {slots : List Slot}
    (offends : Offends lines number operands slots error) : ∃ operand ∈ operands, ∃ mistake,
      error = ⟨number, operand.span, mistake⟩ ∧ mistake.operand? = some operand.text := by
  induction offends with
  | here unfit => exact ⟨_, List.mem_cons_self, _, rfl, by cases unfit <;> rfl⟩
  | later _ _ ih =>
    obtain ⟨operand, member, mistake, reported⟩ := ih
    exact ⟨operand, List.mem_cons_of_mem _ member, mistake, reported⟩

theorem blames_of_misread (misread : Misread lines line error) : Blames lines line error := by
  cases misread with
  | unknownInstruction content =>
    refine .inl ⟨_, ?_, rfl, fun body => .mnemonic content⟩
    rw [content]
    exact List.mem_cons_self
  | @wrongOperandCount mnemonic operands opcode content spelled count =>
    cases surplus : operands[opcode.arity]? with
    | none =>
      have few := Nat.lt_of_le_of_ne (List.getElem?_eq_none_iff.mp surplus) count
      refine .inl ⟨mnemonic, ?_, rfl, fun body => .tooFew content spelled few⟩
      rw [content]
      exact List.mem_cons_self
    | some token =>
      refine .inl ⟨token, ?_, rfl, fun body => .tooMany content spelled surplus⟩
      rw [content]
      exact List.mem_cons_of_mem _ (List.mem_of_getElem? surplus)
  | operand content _ _ leftmost =>
    obtain ⟨operand, member, mistake, rfl, about⟩ := exists_operand_of_offends leftmost
    refine .inl ⟨operand, ?_, rfl, fun body => .operand content member about⟩
    rw [content]
    exact List.mem_cons_of_mem _ member

/-- The first mistake of a source is reported at what is at fault on one of its lines. -/
theorem exists_blames (fails : Fails lines error) : ∃ line ∈ lines, Blames lines line error := by
  cases fails with
  | rule split arranged breaks =>
    exact ⟨_, by rw [split]; simp, blames_of_breaks split arranged breaks⟩
  | instruction _ split _ misread =>
    exact ⟨_, by rw [split]; simp, blames_of_misread misread⟩

/-! ### The place of the text at fault -/

/-- **The first mistake of a source is reported at the text at fault for it.** -/
theorem exists_culprit {source : String} (fails : Fails (Source.lines source) error) :
    ∃ line ∈ Source.lines source, ∃ earlier lead text rest ending later,
      Pinpoints source error earlier lead text rest ending later ∧
      Culprit (Source.lines source) line (lead ++ (text ++ rest)) error text := by
  obtain ⟨line, member, blames⟩ := exists_blames fails
  obtain ⟨earlier, body, ending, later, isLine, lineNumber, span, content⟩ := exists_isLine member
  -- The line has no line feed, so that those before the text are those before the line.
  have counted {lead rest : List Char} (split : body = lead ++ rest) :
      line.number = (earlier ++ lead).count '\n' + 1 := by
    have noFeed : '\n' ∉ lead :=
      fun inLead => isLine.oneLine (split ▸ List.mem_append_left rest inLead)
    rw [lineNumber, List.count_append, List.count_eq_zero_of_not_mem noFeed, Nat.add_zero]
  rcases blames with ⟨token, inTokens, tokenSpan, culprit⟩ | ⟨lineSpan, culprit⟩
  · rw [content] at inTokens
    obtain ⟨lead, rest, rfl, offset⟩ := stands_of_mem_tokens inTokens
    refine ⟨line, member, earlier, lead, token.text.toList, rest, ending, later,
      ⟨isLine, ⟨?_, ?_, ?_⟩, (culprit []).line_eq.trans (counted rfl)⟩, culprit _⟩
    · rw [isLine.split]
      simp
    · rw [tokenSpan, Text.utf8Length_append]
      exact offset
    · rw [tokenSpan, ← Text.utf8ByteSize_ofList, String.ofList_toList]
      rfl
  · have whole : [] ++ (body ++ []) = body := by simp
    refine ⟨line, member, earlier, [], body, [], ending, later,
      ⟨by rwa [whole], ⟨?_, ?_, ?_⟩, (culprit []).line_eq.trans (counted whole.symm)⟩,
      by rw [whole]; exact culprit body⟩
    · rw [isLine.split]
      simp
    · rw [lineSpan, span, List.append_nil]
    · rw [lineSpan, span]

end Source

open Source

/-- A source that is refused is refused for its first mistake. -/
theorem fails_of_assemble {source : String} {error : SourceError}
    (refused : assemble source = .error error) : Fails (Source.lines source) error := by
  rcases wellFormed_or_fails (Source.lines source) with wellFormed | ⟨first, fails⟩
  · obtain ⟨program, assembled⟩ := exists_assemble wellFormed
    rw [refused] at assembled
    cases assembled
  · obtain rfl := Except.error.inj (refused.symm.trans (assemble_of_fails fails))
    exact fails

/-- **Every mistake is reported where it is.** The stretch of the error covers a text within one
line of the source, without the characters that end the line; its line is numbered by the line feeds
before it, its bytes are those of the text, and the text is the one at fault. -/
theorem culprit_of_assemble {source : String} {error : SourceError}
    (refused : assemble source = .error error) :
    ∃ line ∈ Source.lines source, ∃ earlier lead text rest ending later,
      Pinpoints source error earlier lead text rest ending later ∧
      source.toUTF8.extract error.span.offset (error.span.offset + error.span.length) =
        (String.ofList text).toUTF8 ∧
      Culprit (Source.lines source) line (lead ++ (text ++ rest)) error text := by
  obtain ⟨line, member, earlier, lead, text, rest, ending, later, pinpoints, culprit⟩ :=
    exists_culprit (fails_of_assemble refused)
  exact ⟨line, member, earlier, lead, text, rest, ending, later, pinpoints,
    pinpoints.covers.bytes, culprit⟩

/-- The operand too many is found behind characters of two and three bytes, on the second line. -/
theorem culprit_of_surplus_operand :
    let source := "# \u00e9\r\n\u3000add r1, r2 , r3,\u00e9 # x\r\n"
    let error : SourceError := ⟨2, ⟨25, 2⟩, .wrongOperandCount "ADD" 3 4⟩
    assemble source = .error error ∧
      ∃ line ∈ Source.lines source, ∃ earlier lead text rest ending later,
        Pinpoints source error earlier lead text rest ending later ∧
        source.toUTF8.extract error.span.offset (error.span.offset + error.span.length) =
          (String.ofList text).toUTF8 ∧
        Culprit (Source.lines source) line (lead ++ (text ++ rest)) error text := by
  intro source error
  have refused : assemble source = .error error := by decide +kernel
  exact ⟨refused, culprit_of_assemble refused⟩

end Asm16
