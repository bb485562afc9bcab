/-
**Layout and letter case do not matter.**

* `Source.significantLines` — the lines of a source that hold a label or an instruction.
* `SameOperand` — the same text, or the name of a register in either case.
* `Correspondence.upToCase` — under this relation operands resolve to the same.
* `Source.assemble_variants` — sources whose significant lines say the same, up to the case of
  mnemonics and of register names, are assembled to the same program or refused for the same
  mistake; how lines end does not change what they say.
-/

import Asm16.Proofs.Assembly.Correspondence
import Asm16.Proofs.Assembly.Printing
import Asm16.Proofs.Assembly.Wording

namespace Asm16

/-! ### The case of letters -/

/-- A register is named in either case of its letter. -/
theorem Register.Named.of_caseVariant {register : Register} {first second : String}
    (named : register.Named first) (same : CaseVariant first second) : register.Named second := by
  have letters : Source.SameLetters register.name second.toList := by
    obtain ⟨letter, capital, text⟩ := named_iff.mp named
    have upper : letter.toUpper = Char.toUpper 'R' := by
      rcases capital with rfl | rfl <;> decide
    show second.toList.map Char.toUpper = _
    rw [← same, text, Source.toList_name, List.map_cons, List.map_cons, upper]
  have denotes :=
    Source.denotes_of_sameLetters [] (show Source.SameLetters (Operand.text (.register register)) _
      from letters)
  rw [String.ofList_toList] at denotes
  cases denotes with
  | register named => exact named

/-- Operands say the same: they are the same text, or the name of a register in either case. -/
def SameOperand (first second : String) : Prop :=
  first = second ∨ CaseVariant first second ∧ ∃ register : Register, register.Named first

namespace SameOperand

variable {first second : String}

theorem caseVariant (same : SameOperand first second) : CaseVariant first second := by
  rcases same with rfl | ⟨same, -⟩
  · rfl
  · exact same

theorem related_resolve (same : SameOperand first second) (labels : LabelTable) :
    Except.Related (Mistake.Corresponds CaseVariant) Eq (Operand.resolve labels first)
      (Operand.resolve labels second) := by
  rcases same with rfl | ⟨same, register, named⟩
  · exact .refl (.refl fun _ => rfl) (fun _ => rfl) _
  · rw [Operand.resolve, Operand.resolve, Register.ofName?_eq_some_iff.mpr named,
      Register.ofName?_eq_some_iff.mpr (named.of_caseVariant same)]
    exact .ok rfl

end SameOperand

/-- Sources with the same labels and with operands that say the same. -/
def Correspondence.upToCase : Correspondence where
  quoted := CaseVariant
  names := Eq
  operands := SameOperand
  tables := Eq
  quoted_of_caseVariant := id
  quoted_of_names := CaseVariant.of_eq
  quoted_of_operands := SameOperand.caseVariant
  valid same := congrArg _ same
  empty := rfl
  insert := by
    rintro table _ rfl name _ rfl address
    exact .refl (fun _ => rfl) (fun _ => rfl) _
  resolve := by
    rintro table _ rfl first second same
    exact same.related_resolve table

/-! ### Variants of a source -/

namespace Source

/-- The lines of a source that hold a label or an instruction. -/
def significantLines (source : String) : List Line :=
  (lines source).filter Line.isSignificant

/-- **Layout and letter case do not matter.** Sources whose significant lines say the same, up to
the case of mnemonics and register names, are assembled to the same program or refused for the same
mistake at the same place. Lines say the same with a carriage return before every line feed, and
with a line feed after the last of them. -/
theorem assemble_variants :
    (∀ source variant : String, List.Forall₂
        (fun line other : Line => line.content.Matches Eq SameOperand other.content)
        (significantLines source) (significantLines variant) →
      Except.Related
        (SourceError.Corresponds CaseVariant (significantLines source) (significantLines variant))
        Eq (assemble source) (assemble variant)) ∧
    ∀ source : String,
      (lines (String.ofList (withReturns source.toList))).map Line.worded =
        (lines source).map Line.worded ∧
      (source ≠ "" → (∀ c ∈ source.toList.getLast?, c ≠ '\n') →
        (lines (source.push '\n')).map Line.worded = (lines source).map Line.worded) := by
  refine ⟨fun source variant alike => ?_, fun source => ⟨map_worded_withReturns source,
    map_worded_push_feed⟩⟩
  have related := Correspondence.upToCase.related_assembly alike
  rw [significantLines, significantLines, Assembly.ofLines_filter, Assembly.ofLines_filter,
    ← assemble_eq_ofLines, ← assemble_eq_ofLines] at related
  exact related.imp fun program other ⟨words, labels⟩ => congrArg₂ Assembly.mk words labels

/-- A jump to a register is refused after a label, however the two are written. -/
theorem assemble_variants_jump_to_register :
    let source := "a:\n  JMP r1 # a\n"
    let variant := "#\r\na :\n\n jmp,R1"
    List.Forall₂ (fun line other : Line => line.content.Matches Eq SameOperand other.content)
        (significantLines source) (significantLines variant) ∧
      (significantLines variant).map Line.number = [2, 4] ∧
      Except.Related
        (SourceError.Corresponds CaseVariant (significantLines source) (significantLines variant))
        Eq (assemble source) (assemble variant) ∧
      assemble variant = .error ⟨4, ⟨13, 2⟩, .operandKindMismatch .value "R1"⟩ ∧
      variant ≠ "" ∧ (∀ c ∈ variant.toList.getLast?, c ≠ '\n') ∧
      (lines (variant.push '\n')).map Line.worded = (lines variant).map Line.worded := by
  intro source variant
  have sourceLines : significantLines source = [⟨1, ⟨0, 2⟩, .label ⟨"a", 0⟩⟩,
      ⟨2, ⟨3, 12⟩, .instruction ⟨"JMP", 5⟩ [⟨"r1", 9⟩]⟩] := by decide +kernel
  have variantLines : significantLines variant = [⟨2, ⟨3, 3⟩, .label ⟨"a", 3⟩⟩,
      ⟨4, ⟨8, 7⟩, .instruction ⟨"jmp", 9⟩ [⟨"R1", 13⟩]⟩] := by decide +kernel
  have alike : List.Forall₂
      (fun line other : Line => line.content.Matches Eq SameOperand other.content)
      (significantLines source) (significantLines variant) := by
    have jump : CaseVariant "JMP" "jmp" := by decide
    have register : SameOperand "r1" "R1" :=
      .inr ⟨by decide, ⟨1⟩, Register.ofName?_eq_some_iff.mp (by decide)⟩
    rw [sourceLines, variantLines]
    exact .cons (.label rfl) (.cons (.instruction jump (.cons register .nil)) .nil)
  have unended : ∀ c ∈ variant.toList.getLast?, c ≠ '\n' := by
    have last : variant.toList.getLast? = some '1' := by decide +kernel
    rintro c member
    rw [last] at member
    obtain rfl := Option.some.inj member
    decide
  obtain ⟨related, ends⟩ := assemble_variants
  refine ⟨alike, by rw [variantLines]; rfl, related source variant alike, by decide +kernel,
    by decide, unended, (ends variant).2 (by decide) unended⟩

end Source

end Asm16
