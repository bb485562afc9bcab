/-
**What the tokens of assembly source look like.**

The rules for the words of a source, stated on their characters and without the functions that
check them:

* `Numeral.IsNumeral`, `Register.Named`, `Opcode.Spelled`, `IsLabelName` — decimal numerals, names
  of registers, mnemonics in any mixture of cases, and names of labels.
* `Numeral.toDigits_decimalValue` — a numeral without a leading zero is the one that is printed for
  its value.
* `Register.ofName?_eq_some_iff`, `Opcode.ofMnemonic?_eq_some_iff`, `Outline.isLabelName_iff` — the
  functions that check tokens accept exactly what the rules say.
-/

import Asm16.Assembly
import Mathlib.Data.List.Induction

namespace Asm16

/-! ### Decimal numerals -/

namespace Numeral

/-- The digits `0` to `9` of ASCII. -/
def IsDigit (c : Char) : Prop :=
  '0' ≤ c ∧ c ≤ '9'

/-- A decimal numeral is one or more digits. -/
def IsNumeral (token : String) : Prop :=
  token ≠ "" ∧ ∀ c ∈ token.toList, IsDigit c

theorem isDigit_iff {c : Char} : c.isDigit = true ↔ IsDigit c := by
  simp [Char.isDigit, IsDigit, Char.le_def]

theorem isDecimal_iff {token : String} : isDecimal token.toList = true ↔ IsNumeral token := by
  unfold isDecimal IsNumeral
  rw [Bool.and_eq_true, List.all_eq_true, Bool.not_eq_true', List.isEmpty_eq_false_iff]
  simp only [isDigit_iff, ne_eq, String.toList_eq_nil_iff]

theorem digitChar_of_isDigit {c : Char} (digit : IsDigit c) :
    c.toNat - 48 < 10 ∧ Nat.digitChar (c.toNat - 48) = c := by
  have lower : 48 ≤ c.toNat := digit.1
  have upper : c.toNat ≤ 57 := digit.2
  refine ⟨by omega, ?_⟩
  apply Char.toNat_inj.mp
  rw [Nat.toNat_digitChar_of_lt_ten (by omega)]
  omega

theorem decimalValue_concat (digits : List Char) (last : Char) :
    decimalValue (digits ++ [last]) = 10 * decimalValue digits + (last.toNat - 48) := by
  unfold decimalValue
  rw [Nat.ofDigitChars_append, Nat.ofDigitChars_cons, Nat.ofDigitChars_nil]
  rfl

/-- A numeral without a leading zero is the one that is printed for its value. -/
theorem toDigits_decimalValue {digits : List Char} (nonempty : digits ≠ [])
    (decimal : ∀ c ∈ digits, IsDigit c) (canonical : digits.length = 1 ∨ digits.head? ≠ some '0') :
    Nat.toDigits 10 (decimalValue digits) = digits := by
  induction digits using List.reverseRecOn with
  | nil => exact absurd rfl nonempty
  | append_singleton digits last ih =>
    obtain ⟨small, printed⟩ := digitChar_of_isDigit (decimal last (by simp))
    rw [decimalValue_concat]
    by_cases single : digits = []
    · subst single
      rw [show decimalValue [] = 0 from rfl, Nat.mul_zero, Nat.zero_add,
        Nat.toDigits_of_lt_base small, printed, List.nil_append]
    · have leading : digits.head? ≠ some '0' := by
        rcases canonical with one | leading
        · rw [List.length_append, List.length_singleton] at one
          exact absurd (List.eq_nil_of_length_eq_zero (by omega)) single
        · cases digits with
          | nil => exact absurd rfl single
          | cons first rest => exact leading
      have before := ih single (fun c member => decimal c (by simp [member])) (.inr leading)
      have positive : 0 < decimalValue digits := by
        rcases Nat.eq_zero_or_pos (decimalValue digits) with zero | positive
        · rw [zero, Nat.toDigits_zero] at before
          rw [← before] at leading
          exact absurd rfl leading
        · exact positive
      rw [← Nat.toDigits_append_toDigits (by decide) positive small, before,
        Nat.toDigits_of_lt_base small, printed]

end Numeral

/-! ### Registers -/

namespace Register

/-- A register is named by `R` or `r` and the decimal numeral of its index. -/
def Named (register : Register) (token : String) : Prop :=
  token = "R" ++ toString register.index.val ∨ token = "r" ++ toString register.index.val

theorem isCanonical_toDigits (register : Register) :
    isCanonical (Nat.toDigits 10 register.index.val) = true := by
  obtain ⟨index⟩ := register
  revert index
  decide

theorem named_iff {register : Register} {token : String} :
    register.Named token ↔ ∃ letter, (letter = 'R' ∨ letter = 'r') ∧
      token.toList = letter :: Nat.toDigits 10 register.index.val := by
  unfold Named
  have text (capital : Char) :
      token = String.singleton capital ++ toString register.index.val ↔
        token.toList = capital :: Nat.toDigits 10 register.index.val := by
    rw [← String.toList_inj, String.toList_append, Nat.toString_eq_ofList_toDigits,
      String.toList_ofList, String.toList_singleton, List.singleton_append]
  rw [show "R" = String.singleton 'R' from rfl, show "r" = String.singleton 'r' from rfl, text,
    text]
  constructor
  · rintro (upper | lower)
    · exact ⟨'R', .inl rfl, upper⟩
    · exact ⟨'r', .inr rfl, lower⟩
  · rintro ⟨letter, rfl | rfl, named⟩
    · exact .inl named
    · exact .inr named

/-- Exactly the names of registers are read as registers. -/
theorem ofName?_eq_some_iff {token : String} {register : Register} :
    ofName? token = some register ↔ register.Named token := by
  rw [named_iff]
  unfold ofName?
  constructor
  · intro found
    split at found
    · cases found
    · next letter digits text =>
      split at found
      · next checked =>
        rw [Bool.and_eq_true, Bool.or_eq_true, beq_iff_eq, beq_iff_eq] at checked
        obtain ⟨capital, canonical⟩ := checked
        unfold isCanonical Numeral.isDecimal at canonical
        simp only [Bool.and_eq_true, Bool.or_eq_true, Bool.not_eq_true', List.isEmpty_eq_false_iff,
          List.all_eq_true, beq_iff_eq, bne_iff_ne, Numeral.isDigit_iff] at canonical
        obtain ⟨⟨nonempty, decimal⟩, leading⟩ := canonical
        unfold ofIndex? at found
        split at found
        · cases found
          exact ⟨letter, capital,
            text.trans (by rw [Numeral.toDigits_decimalValue nonempty decimal leading])⟩
        · cases found
      · cases found
  · rintro ⟨letter, capital, text⟩
    have value : Numeral.decimalValue (Nat.toDigits 10 register.index.val) = register.index.val :=
      Nat.ofDigitChars_ten_toDigits
    have checked : ((letter == 'R' || letter == 'r') &&
        isCanonical (Nat.toDigits 10 register.index.val)) = true := by
      rw [isCanonical_toDigits, Bool.and_true, Bool.or_eq_true, beq_iff_eq, beq_iff_eq]
      exact capital
    rw [text]
    simp only [checked, if_true, value, ofIndex?, register.index.isLt, dif_pos]

theorem ofName?_eq_none_iff {token : String} :
    ofName? token = none ↔ ∀ register : Register, ¬ register.Named token := by
  constructor
  · intro none register named
    rw [ofName?_eq_some_iff.mpr named] at none
    cases none
  · intro unnamed
    cases found : ofName? token with
    | none => rfl
    | some register => exact absurd (ofName?_eq_some_iff.mp found) (unnamed register)

theorem Named.unique {first second : Register} {token : String} (left : first.Named token)
    (right : second.Named token) : first = second :=
  Option.some.inj ((ofName?_eq_some_iff.mpr left).symm.trans (ofName?_eq_some_iff.mpr right))

end Register

/-! ### Mnemonics -/

namespace Opcode

/-- An operation is spelled as its mnemonic, the case of ASCII letters aside. -/
def Spelled (opcode : Opcode) (token : String) : Prop :=
  token.toList.map Char.toUpper = opcode.mnemonic.toList.map Char.toUpper

theorem map_toUpper_mnemonic (opcode : Opcode) :
    opcode.mnemonic.toList.map Char.toUpper = opcode.mnemonic.toList := by
  cases opcode with
  | arithmetic operation => cases operation <;> decide
  | branch condition => cases condition <;> decide
  | _ => decide

/-- Exactly the spellings of an operation are read as the operation. -/
theorem ofMnemonic?_eq_some_iff {token : String} {opcode : Opcode} :
    ofMnemonic? token = some opcode ↔ opcode.Spelled token := by
  unfold Spelled ofMnemonic?
  rw [map_toUpper_mnemonic]
  constructor
  · intro found
    have spelled := List.find?_some found
    exact (beq_iff_eq.mp spelled).symm
  · intro spelled
    rw [spelled]
    cases opcode with
    | arithmetic operation => cases operation <;> decide
    | branch condition => cases condition <;> decide
    | _ => decide

end Opcode

/-! ### Labels -/

/-- The characters of names: letters and digits of ASCII and the underscore. -/
def IsNameCharacter (c : Char) : Prop :=
  ('a' ≤ c ∧ c ≤ 'z') ∨ ('A' ≤ c ∧ c ≤ 'Z') ∨ Numeral.IsDigit c ∨ c = '_'

/-- What a label may be called: at least one character, all of them name characters, no digit at
the front, and not like a register. -/
structure IsLabelName (name : String) : Prop where
  nonempty : name ≠ ""
  characters : ∀ c ∈ name.toList, IsNameCharacter c
  front : ∀ c, name.toList.head? = some c → ¬ Numeral.IsDigit c
  unlikeRegisters : ∀ register : Register, ¬ register.Named name

theorem isNameCharacter_iff {c : Char} :
    Outline.isNameCharacter c = true ↔ IsNameCharacter c := by
  have upper : c.isUpper = true ↔ 'A' ≤ c ∧ c ≤ 'Z' := decide_eq_true_iff
  have lower : c.isLower = true ↔ 'a' ≤ c ∧ c ≤ 'z' :=
    (Bool.and_eq_true _ _).to_iff.trans (and_congr decide_eq_true_iff decide_eq_true_iff)
  show (((c.isUpper || c.isLower) || c.isDigit) || c == '_') = true ↔ _
  rw [Bool.or_eq_true, Bool.or_eq_true, Bool.or_eq_true, upper, lower, Numeral.isDigit_iff,
    beq_iff_eq, or_assoc, or_assoc, or_left_comm]
  exact Iff.rfl

/-- Exactly the names that labels may have are accepted. -/
theorem Outline.isLabelName_iff {name : String} :
    isLabelName name = true ↔ IsLabelName name := by
  unfold isLabelName
  rw [Bool.and_eq_true, Bool.and_eq_true, List.all_eq_true, Option.isNone_iff_eq_none,
    Register.ofName?_eq_none_iff]
  simp only [isNameCharacter_iff]
  constructor
  · rintro ⟨⟨front, characters⟩, unlikeRegisters⟩
    obtain ⟨first, head, digit⟩ := (Option.any_eq_true _ _).mp front
    refine ⟨?_, characters, ?_, unlikeRegisters⟩
    · rintro rfl
      cases head
    · intro c same
      obtain rfl : first = c := Option.some.inj (head.symm.trans same)
      rw [← Numeral.isDigit_iff]
      simpa using digit
  · rintro ⟨nonempty, characters, front, unlikeRegisters⟩
    refine ⟨⟨?_, characters⟩, unlikeRegisters⟩
    cases text : name.toList with
    | nil => exact absurd (String.toList_eq_nil_iff.mp text) nonempty
    | cons first rest =>
      have digit := front first (by rw [text]; rfl)
      rw [← Numeral.isDigit_iff] at digit
      simpa using digit

/-- No label is named like a numeral. -/
theorem IsLabelName.not_isNumeral {name : String} (label : IsLabelName name) :
    ¬ Numeral.IsNumeral name := by
  rintro ⟨-, digits⟩
  cases text : name.toList with
  | nil => exact label.nonempty (String.toList_eq_nil_iff.mp text)
  | cons first rest =>
    exact label.front first (by rw [text]; rfl) (digits first (by rw [text]; simp))

end Asm16
