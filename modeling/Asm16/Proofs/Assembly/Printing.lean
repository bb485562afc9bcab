/-
**The words that instructions are printed with.**

* `Source.isAlphanum_toUpper`, `Source.eq_of_toUpper_eq` — letters stay letters in the other case,
  and digits have none.
* `Source.SameLetters` — a text in another mixture of cases; by `Source.SameLetters.isWord` it is a
  word of letters and digits if the printed one is.
* `Instr.printed`, `Source.isWord_printed` — the words of an instruction are letters and digits.
* `Opcode.textWith`, `Source.text_eq` — an operation with any operands as source, and an instruction
  as its operation with its operands.
* `Source.denotes_of_sameLetters` — an operand is what its text stands for, in any mixture of cases.
-/

import Asm16.Proofs.Assembly.Reading

namespace Asm16

/-- The words that an instruction is printed with: its mnemonic and its operands. -/
def Instr.printed (instr : Instr) : List String :=
  instr.opcode.mnemonic :: instr.operands

/-- An operand in assembly source: the name of a register, or a decimal numeral. -/
def Operand.text : Operand → String
  | .register found => found.name
  | .value number => toString number

/-- An operation with any operands in assembly source. -/
def Opcode.textWith (opcode : Opcode) : List Operand → String
  | [] => opcode.mnemonic
  | operands => opcode.mnemonic ++ " " ++ ", ".intercalate (operands.map Operand.text)

/-- The words that an operation with operands is printed with. -/
def Opcode.printedWith (opcode : Opcode) (operands : List Operand) : List String :=
  opcode.mnemonic :: operands.map Operand.text

namespace Source

/-! ### Letters and digits -/

/-- Making a character a capital changes small letters only. -/
theorem toUpper_cases (c : Char) : c.toUpper = c ∨
    97 ≤ c.toNat ∧ c.toNat ≤ 122 ∧ c.toUpper.toNat + 32 = c.toNat := by
  unfold Char.toUpper
  split
  · next small =>
    have lower : 97 ≤ c.toNat := small.1
    have upper : c.toNat ≤ 122 := small.2
    refine .inr ⟨lower, upper, ?_⟩
    -- A capital letter is 32 below the small one, and -32 is added modulo 2 ^ 32.
    have wrapped : (c.val + ('A'.val - 'a'.val)).toNat = (c.toNat + 4294967264) % 4294967296 :=
      UInt32.toNat_add _ _
    show (c.val + ('A'.val - 'a'.val)).toNat + 32 = c.toNat
    omega
  · exact .inl rfl

theorem isAlphanum_iff {c : Char} : c.isAlphanum = true ↔ 48 ≤ c.toNat ∧ c.toNat ≤ 57 ∨
    65 ≤ c.toNat ∧ c.toNat ≤ 90 ∨ 97 ≤ c.toNat ∧ c.toNat ≤ 122 := by
  have upper : c.isUpper = true ↔ 65 ≤ c.toNat ∧ c.toNat ≤ 90 := decide_eq_true_iff
  have lower : c.isLower = true ↔ 97 ≤ c.toNat ∧ c.toNat ≤ 122 :=
    (Bool.and_eq_true _ _).to_iff.trans (and_congr decide_eq_true_iff decide_eq_true_iff)
  have digit : c.isDigit = true ↔ 48 ≤ c.toNat ∧ c.toNat ≤ 57 := Numeral.isDigit_iff
  show ((c.isUpper || c.isLower) || c.isDigit) = true ↔ _
  rw [Bool.or_eq_true, Bool.or_eq_true, upper, lower, digit]
  omega

theorem isAlphanum_toUpper (c : Char) : c.toUpper.isAlphanum = c.isAlphanum := by
  rcases toUpper_cases c with same | small
  · rw [same]
  · rw [Bool.eq_iff_iff, isAlphanum_iff, isAlphanum_iff]
    omega

theorem isSeparator_of_isAlphanum {c : Char} (alphanumeric : c.isAlphanum = true) :
    isSeparator c = false := by
  rw [isAlphanum_iff] at alphanumeric
  simp only [isSeparator, Text.isBlank, Text.blankRanges, List.any_cons, List.any_nil,
    Bool.or_false, Bool.or_eq_false_iff, Bool.and_eq_false_imp, decide_eq_true_eq,
    decide_eq_false_iff_not, Nat.not_le, beq_eq_false_iff_ne, ne_eq, ← Char.toNat_inj,
    Char.reduceToNat]
  omega

/-- Making a character a capital changes no digit, and makes nothing else a digit. -/
theorem eq_of_toUpper_eq {digit c : Char} (isDigit : Numeral.IsDigit digit)
    (same : c.toUpper = digit.toUpper) : c = digit := by
  have upper : digit.toNat ≤ 57 := isDigit.2
  rcases toUpper_cases digit with unchanged | small
  · rw [unchanged] at same
    rcases toUpper_cases c with kept | small
    · exact kept.symm.trans same
    · rw [same] at small
      omega
  · omega

/-! ### Words -/

/-- A text that differs from a printed one in the case of ASCII letters only. -/
def SameLetters (printed : String) (written : List Char) : Prop :=
  written.map Char.toUpper = printed.toList.map Char.toUpper

instance (printed : String) (written : List Char) : Decidable (SameLetters printed written) :=
  inferInstanceAs (Decidable (_ = _))

/-- A word of letters and digits. -/
def IsWord (word : List Char) : Prop :=
  word ≠ [] ∧ ∀ c ∈ word, c.isAlphanum = true

instance (word : List Char) : Decidable (IsWord word) :=
  @instDecidableAnd _ _ _ (List.decidableBAll _ word)

namespace SameLetters

variable {printed : String} {written : List Char}

theorem refl (printed : String) : SameLetters printed printed.toList := rfl

theorem isWord (same : SameLetters printed written) (word : IsWord printed.toList) :
    IsWord written := by
  obtain ⟨nonempty, alphanumeric⟩ := word
  refine ⟨?_, fun c member => ?_⟩
  · rintro rfl
    exact nonempty (List.map_eq_nil_iff.mp same.symm)
  · have capital : c.toUpper ∈ printed.toList.map Char.toUpper :=
      same ▸ List.mem_map_of_mem member
    obtain ⟨letter, inPrinted, equal⟩ := List.mem_map.mp capital
    rw [← isAlphanum_toUpper, ← equal, isAlphanum_toUpper]
    exact alphanumeric letter inPrinted

end SameLetters

/-- There is one way to write digits. -/
theorem eq_of_map_toUpper_eq {digits written : List Char}
    (decimal : ∀ c ∈ digits, Numeral.IsDigit c)
    (same : written.map Char.toUpper = digits.map Char.toUpper) : written = digits := by
  induction digits generalizing written with
  | nil => exact List.map_eq_nil_iff.mp same
  | cons digit digits ih =>
    obtain ⟨c, rest, rfl, head, tail⟩ := List.map_eq_cons_iff.mp same
    rw [eq_of_toUpper_eq (decimal digit (by simp)) head,
      ih (fun c member => decimal c (by simp [member])) tail]

/-! ### The words of an instruction -/

theorem isDigit_of_mem_toDigits {number : Nat} {c : Char} (member : c ∈ Nat.toDigits 10 number) :
    Numeral.IsDigit c :=
  Numeral.isDigit_iff.mp (Nat.isDigit_of_mem_toDigits (by decide) (by decide) member)

theorem toList_toString (number : Nat) : (toString number).toList = Nat.toDigits 10 number := by
  rw [Nat.toString_eq_ofList_toDigits, String.toList_ofList]

theorem toList_name (register : Register) :
    register.name.toList = 'R' :: Nat.toDigits 10 register.index.val := by
  rw [Register.name, String.toList_append, toList_toString]
  rfl

theorem isWord_operand (operand : Operand) : IsWord operand.text.toList := by
  have digits {number : Nat} {c : Char} (member : c ∈ Nat.toDigits 10 number) :
      c.isAlphanum = true := by
    rw [Char.isAlphanum, Numeral.isDigit_iff.mpr (isDigit_of_mem_toDigits member), Bool.or_true]
  cases operand with
  | register register =>
    rw [Operand.text, toList_name]
    exact ⟨List.cons_ne_nil _ _, List.forall_mem_cons.mpr ⟨rfl, fun _ => digits⟩⟩
  | value number =>
    rw [Operand.text, toList_toString]
    exact ⟨Nat.toDigits_ne_nil, fun _ => digits⟩

theorem isWord_mnemonic (opcode : Opcode) : IsWord opcode.mnemonic.toList := by
  cases opcode with
  | arithmetic operation => cases operation <;> decide
  | branch condition => cases condition <;> decide
  | _ => decide

/-- The operands of an instruction are printed as what they stand for. -/
theorem operands_eq (instr : Instr) : instr.operands = instr.arguments.map Operand.text := by
  cases instr <;> rfl

/-- An instruction is its operation with its operands. -/
theorem text_eq (instr : Instr) : instr.text = instr.opcode.textWith instr.arguments := by
  cases instr <;> rfl

theorem isWord_printedWith (opcode : Opcode) (operands : List Operand) :
    ∀ word ∈ (opcode.printedWith operands).map String.toList, IsWord word := by
  rw [List.forall_mem_map, Opcode.printedWith, List.forall_mem_cons, List.forall_mem_map]
  exact ⟨isWord_mnemonic opcode, fun operand _ => isWord_operand operand⟩

theorem isWord_printed {instr : Instr} {word : String} (member : word ∈ instr.printed) :
    IsWord word.toList := by
  rw [Instr.printed, operands_eq] at member
  exact isWord_printedWith instr.opcode instr.arguments _ (List.mem_map_of_mem member)

/-- No numeral names a register. -/
theorem not_named_of_isNumeral {token : String} (numeral : Numeral.IsNumeral token)
    (register : Register) : ¬ register.Named token := by
  intro named
  obtain ⟨letter, capital, text⟩ := Register.named_iff.mp named
  have digit : Numeral.IsDigit letter := numeral.2 letter (by rw [text]; simp)
  rcases capital with rfl | rfl
  · exact absurd digit (by unfold Numeral.IsDigit; decide)
  · exact absurd digit (by unfold Numeral.IsDigit; decide)

/-- An operand is what its text stands for, in either case of its letters and whatever labels
there are. -/
theorem denotes_of_sameLetters (lines : List Line) {operand : Operand} {written : List Char}
    (same : SameLetters operand.text written) :
    Denotes lines (String.ofList written) operand := by
  unfold SameLetters at same
  cases operand with
  | register register =>
    rw [Operand.text, toList_name] at same
    obtain ⟨letter, digits, rfl, capital, rest⟩ := List.map_eq_cons_iff.mp same
    obtain rfl := eq_of_map_toUpper_eq (fun _ => isDigit_of_mem_toDigits) rest
    refine .register (Register.named_iff.mpr ⟨letter, ?_, String.toList_ofList⟩)
    rcases toUpper_cases letter with kept | ⟨-, -, small⟩
    · exact .inl (kept.symm.trans capital)
    · rw [capital] at small
      exact .inr (Char.toNat_inj.mp small.symm)
  | value number =>
    rw [Operand.text, toList_toString] at same
    obtain rfl := eq_of_map_toUpper_eq (fun _ => isDigit_of_mem_toDigits) same
    have numeral : Numeral.IsNumeral (String.ofList (Nat.toDigits 10 number)) := by
      refine ⟨fun empty => ?_, fun c member => ?_⟩
      · rw [← String.toList_inj, String.toList_ofList] at empty
        exact Nat.toDigits_ne_nil empty
      · rw [String.toList_ofList] at member
        exact isDigit_of_mem_toDigits member
    have denotes : Denotes lines _ _ := .numeral (not_named_of_isNumeral numeral) numeral
    rwa [String.toList_ofList, Numeral.decimalValue, Nat.ofDigitChars_ten_toDigits] at denotes

end Source

end Asm16
