/-
**Encoded programs are read back.**

* `Numeral.eq_of_binaryValue_eq`, `Numeral.padded_binaryValue` — the digits of a number of a given
  width are the only ones that denote it.
* `Program.wordsOfLines_eq_ok_iff` — lines are read as the words whose digits they are, whatever
  blank lines there are between them.
* `Program.ofText_toText`, `Program.ofBytes_toBytes` — what is written is read back if it fits in
  memory, and otherwise refused for its length, in both forms alike.
* `Program.tidied` — a text without its blank lines and without the blanks around the others.
* `Program.encodings_read_back` — both forms are read back to the words that were written, and
  written back to what was read, the text tidied.
-/

import Asm16.Program
import Asm16.Proofs.Assembly.Lexing
import Asm16.Proofs.Pointwise
import Mathlib.Algebra.Group.Nat.Defs
import Mathlib.Data.List.Induction

namespace Asm16

/-! ### Binary numerals -/

namespace Numeral

theorem isBit_iff {c : Char} : isBit c = true ↔ c = '0' ∨ c = '1' := by
  rw [isBit, Bool.or_eq_true, beq_iff_eq, beq_iff_eq]

theorem binaryValue_concat (digits : List Char) (last : Char) :
    binaryValue (digits ++ [last]) = 2 * binaryValue digits + (last.toNat - 48) := by
  unfold binaryValue
  rw [Nat.ofDigitChars_append, Nat.ofDigitChars_cons, Nat.ofDigitChars_nil]
  rfl

/-- Binary numerals of one length that denote the same number are the same. -/
theorem eq_of_binaryValue_eq {left right : List Char} (length : left.length = right.length)
    (leftBits : ∀ c ∈ left, isBit c = true) (rightBits : ∀ c ∈ right, isBit c = true)
    (same : binaryValue left = binaryValue right) : left = right := by
  induction left using List.reverseRecOn generalizing right with
  | nil => exact (List.eq_nil_of_length_eq_zero length.symm).symm
  | append_singleton left last ih =>
    rcases List.eq_nil_or_concat right with rfl | ⟨right, other, rfl⟩
    · simp at length
    · rw [List.concat_eq_append] at *
      rw [binaryValue_concat, binaryValue_concat] at same
      have lastBit := isBit_iff.mp (leftBits last (by simp))
      have otherBit := isBit_iff.mp (rightBits other (by simp))
      have sameLast : last = other := by
        rcases lastBit with rfl | rfl <;> rcases otherBit with rfl | rfl <;>
          simp only [Char.reduceToNat] at same ⊢ <;> omega
      subst sameLast
      rw [ih (by simpa using length) (fun c member => leftBits c (by simp [member]))
        (fun c member => rightBits c (by simp [member])) (by omega)]

theorem binaryValue_lt {digits : List Char} (bits : ∀ c ∈ digits, isBit c = true) :
    binaryValue digits < 2 ^ digits.length := by
  induction digits using List.reverseRecOn with
  | nil => decide
  | append_singleton digits last ih =>
    have before := ih fun c member => bits c (by simp [member])
    have lastBit : last.toNat - 48 ≤ 1 := by
      rcases isBit_iff.mp (bits last (by simp)) with rfl | rfl <;> decide
    rw [binaryValue_concat, List.length_append, List.length_singleton, Nat.pow_succ]
    omega

theorem isBit_of_mem_toDigits {number : Nat} : ∀ c ∈ Nat.toDigits 2 number, isBit c = true := by
  have digit {bit : Nat} (small : bit < 2) : isBit bit.digitChar = true := by
    obtain rfl | rfl : bit = 0 ∨ bit = 1 := by omega
    · rfl
    · rfl
  induction number using Nat.strong_induction_on with
  | _ number ih =>
    intro c member
    by_cases small : number < 2
    · rw [Nat.toDigits_of_lt_base small, List.mem_singleton] at member
      exact member ▸ digit small
    · rw [Nat.toDigits_of_base_le (by decide) (Nat.le_of_not_lt small), List.mem_append,
        List.mem_singleton] at member
      rcases member with before | rfl
      · exact ih (number / 2) (by omega) c before
      · exact digit (Nat.mod_lt _ (by decide))

theorem isBit_of_mem_padded {width number : Nat} :
    ∀ c ∈ padded 2 width number, isBit c = true := by
  intro c member
  unfold padded List.leftpad at member
  rcases List.mem_append.mp member with zero | digit
  · rw [List.eq_of_mem_replicate zero]
    rfl
  · exact isBit_of_mem_toDigits c digit

theorem length_padded {width number : Nat} (positive : 0 < width) (small : number < 2 ^ width) :
    (padded 2 width number).length = width := by
  have short := (Nat.length_toDigits_le_iff (by decide) positive).mpr small
  rw [padded, List.length_leftpad]
  exact Nat.max_eq_left short

/-- A number is what its digits denote. -/
theorem binaryValue_padded (width number : Nat) : binaryValue (padded 2 width number) = number := by
  unfold binaryValue padded List.leftpad
  rw [Nat.ofDigitChars_append, Nat.ofDigitChars_replicate_zero, Nat.mul_zero,
    Nat.ofDigitChars_toDigits (by decide) (by decide)]

/-- A numeral is the digits of what it denotes. -/
theorem padded_binaryValue {digits : List Char} (nonempty : digits ≠ [])
    (bits : ∀ c ∈ digits, isBit c = true) :
    padded 2 digits.length (binaryValue digits) = digits :=
  eq_of_binaryValue_eq (length_padded (List.length_pos_iff.mpr nonempty) (binaryValue_lt bits))
    isBit_of_mem_padded bits (binaryValue_padded _ _)

end Numeral

namespace Program

/-! ### Lines of digits -/

/-- The digits of a word. -/
def wordLine (word : Word) : List Char :=
  Numeral.padded 2 wordDigits word.toNat

/-- A text without its blank lines, every other line without the blanks around it and with a line
feed after it. -/
def tidied (text : String) : String :=
  String.join ((((text.toList.splitOn '\n').map Text.trim).filter (· ≠ [])).map fun line =>
    String.ofList line ++ "\n")

theorem length_wordLine (word : Word) : (wordLine word).length = wordDigits :=
  Numeral.length_padded (by decide) word.toNat_lt

theorem isWordLine_wordLine (word : Word) : isWordLine (wordLine word) = true := by
  rw [isWordLine, Bool.and_eq_true, beq_iff_eq, List.all_eq_true]
  exact ⟨length_wordLine word, Numeral.isBit_of_mem_padded⟩

theorem wordLine_ne_nil (word : Word) : wordLine word ≠ [] := by
  intro empty
  have length := length_wordLine word
  rw [empty] at length
  cases length

/-- A word is the value of its digits. -/
theorem ofNat_binaryValue_wordLine (word : Word) :
    UInt16.ofNat (Numeral.binaryValue (wordLine word)) = word := by
  rw [wordLine, Numeral.binaryValue_padded, UInt16.ofNat_toNat]

/-- The digits on a line are those of the word that they denote. -/
theorem wordLine_ofNat_binaryValue {line : List Char} (isWord : isWordLine line = true) :
    wordLine (UInt16.ofNat (Numeral.binaryValue line)) = line := by
  rw [isWordLine, Bool.and_eq_true, beq_iff_eq, List.all_eq_true] at isWord
  obtain ⟨length, bits⟩ := isWord
  have nonempty : line ≠ [] := by
    rintro rfl
    cases length
  have small : Numeral.binaryValue line < 2 ^ 16 := by
    have small := Numeral.binaryValue_lt bits
    rwa [length] at small
  rw [wordLine, UInt16.toNat_ofNat', Nat.mod_eq_of_lt small, ← length]
  exact Numeral.padded_binaryValue nonempty bits

/-- **Lines are read as the words whose digits they are**, blank lines aside. -/
theorem wordsOfLines_eq_ok_iff {number : Nat} {lines : List (List Char)} {words : List Word} :
    wordsOfLines number lines = .ok words ↔ lines.filter (· ≠ []) = words.map wordLine := by
  induction lines generalizing number words with
  | nil =>
    rw [wordsOfLines, List.filter_nil, eq_comm (a := []), List.map_eq_nil_iff, Except.ok.injEq,
      eq_comm]
  | cons line rest ih =>
    unfold wordsOfLines
    by_cases blank : line = []
    · rw [if_pos (by simp [blank]), List.filter_cons_of_neg (by simp [blank])]
      exact ih
    · rw [if_neg (by simp [blank]), List.filter_cons_of_pos (by simp [blank])]
      by_cases isWord : isWordLine line = true
      · rw [if_pos isWord]
        constructor
        · intro read
          split at read
          · next words others =>
            cases read
            rw [List.map_cons, wordLine_ofNat_binaryValue isWord, ih.mp others]
          · cases read
        · intro same
          obtain ⟨word, others, rfl, head, tail⟩ := List.map_eq_cons_iff.mp same.symm
          rw [ih.mpr tail.symm, ← head, ofNat_binaryValue_wordLine]
      · rw [if_neg isWord]
        refine ⟨fun read => (by cases read), fun same => ?_⟩
        obtain ⟨word, others, rfl, rfl, tail⟩ := List.map_eq_cons_iff.mp same.symm
        exact absurd (isWordLine_wordLine word) isWord

theorem fitting_eq_ok_iff {words program : List Word} :
    fitting words = .ok program ↔ words = program ∧ program.length ≤ 4096 := by
  unfold fitting
  by_cases fits : words.length ≤ 4096
  · rw [if_pos fits, Except.ok.injEq]
    exact ⟨fun same => ⟨same, same ▸ fits⟩, And.left⟩
  · rw [if_neg fits]
    refine ⟨fun read => (by cases read), ?_⟩
    rintro ⟨rfl, small⟩
    exact absurd small fits

theorem toList_toText (words : List Word) :
    (toText words).toList = words.flatMap fun word => wordLine word ++ ['\n'] := by
  unfold toText
  rw [String.toList_join, List.flatMap_map]
  refine List.flatMap_congr fun word _ => ?_
  rw [String.toList_append, Numeral.binary, String.toList_ofList]
  rfl

theorem trim_wordLine (word : Word) : Text.trim (wordLine word ++ ['\n']) = wordLine word := by
  rw [Text.trim_append_blank rfl]
  refine Text.trim_eq_self fun c member => ?_
  rcases Numeral.isBit_iff.mp (Numeral.isBit_of_mem_padded c member) with rfl | rfl <;> rfl

/-- A program that is written as text has a line for each word. -/
theorem lines_toText (words : List Word) :
    Text.lines (toText words).toList = words.map fun word => wordLine word ++ ['\n'] := by
  rw [toList_toText]
  induction words with
  | nil => rfl
  | cons word words ih =>
    have oneLine : '\n' ∉ wordLine word := by
      intro member
      cases Numeral.isBit_of_mem_padded _ member
    rw [List.flatMap_cons, List.append_assoc, List.singleton_append,
      Text.lines_append_feed oneLine, ih, List.map_cons]

/-- **A program that is written as text is read back** if it fits in memory. -/
theorem ofText_toText (words : List Word) : ofText (toText words) = fitting words := by
  have digits : ((Text.lines (toText words).toList).map Text.trim).filter (· ≠ []) =
      words.map wordLine := by
    rw [lines_toText, List.map_map, List.filter_eq_self.mpr]
    · exact List.map_congr_left fun word _ => trim_wordLine word
    · intro line member
      obtain ⟨word, -, rfl⟩ := List.mem_map.mp member
      simp [trim_wordLine, wordLine_ne_nil]
  rw [ofText, wordsOfLines_eq_ok_iff.mpr digits]
  rfl

/-- A text that is read as a program is, once tidied, the text that the program is written as. -/
theorem toText_of_ofText {text : String} {words : List Word} (read : ofText text = .ok words) :
    toText words = tidied text := by
  obtain ⟨found, digits, fitted⟩ := Except.bind_eq_ok_iff.mp read
  obtain ⟨rfl, -⟩ := fitting_eq_ok_iff.mp fitted
  rw [wordsOfLines_eq_ok_iff, Text.filter_map_trim_lines] at digits
  rw [tidied, digits, List.map_map]
  rfl

/-! ### Pairs of bytes -/

/-- A word is made up again of its two bytes. -/
theorem ofNat_wordBytes (word : Word) :
    UInt16.ofNat ((UInt8.ofNat (word.toNat / 256)).toNat * 256 + (UInt8.ofNat word.toNat).toNat) =
      word := by
  have bound := word.toNat_lt
  apply UInt16.toNat_inj.mp
  rw [UInt16.toNat_ofNat', UInt8.toNat_ofNat', UInt8.toNat_ofNat']
  omega

/-- Two bytes are those of the word that they make up. -/
theorem wordBytes_ofNat (high low : UInt8) :
    wordBytes (UInt16.ofNat (high.toNat * 256 + low.toNat)) = [high, low] := by
  have highBound := high.toNat_lt
  have lowBound := low.toNat_lt
  unfold wordBytes
  congr 1
  · apply UInt8.toNat_inj.mp
    rw [UInt8.toNat_ofNat', UInt16.toNat_ofNat']
    omega
  · congr 1
    apply UInt8.toNat_inj.mp
    rw [UInt8.toNat_ofNat', UInt16.toNat_ofNat']
    omega

theorem wordsOfBytes_flatMap (words : List Word) :
    wordsOfBytes (words.flatMap wordBytes) = words := by
  induction words with
  | nil => rfl
  | cons word words ih =>
    show UInt16.ofNat _ :: wordsOfBytes (words.flatMap wordBytes) = word :: words
    rw [ofNat_wordBytes, ih]

theorem length_flatMap_wordBytes (words : List Word) :
    (words.flatMap wordBytes).length = 2 * words.length := by
  induction words with
  | nil => rfl
  | cons word words ih =>
    rw [List.flatMap_cons, List.length_append, ih, List.length_cons]
    show 2 + 2 * words.length = 2 * (words.length + 1)
    omega

/-- Bytes in pairs are those of the words that they make up. -/
theorem flatMap_wordsOfBytes {bytes : List UInt8} (pairs : bytes.length % 2 = 0) :
    (wordsOfBytes bytes).flatMap wordBytes = bytes := by
  induction bytes using wordsOfBytes.induct with
  | case1 high low rest ih =>
    have restPairs : rest.length % 2 = 0 := by
      rw [List.length_cons, List.length_cons] at pairs
      omega
    rw [wordsOfBytes, List.flatMap_cons, wordBytes_ofNat, ih restPairs]
    rfl
  | case2 bytes noPair =>
    cases bytes with
    | nil => rfl
    | cons high rest =>
      cases rest with
      | nil => cases pairs
      | cons low rest => exact absurd rfl (noPair high low rest)

/-- **A program that is written as bytes is read back** if it fits in memory. -/
theorem ofBytes_toBytes (words : List Word) : ofBytes (toBytes words) = fitting words := by
  have even : (toBytes words).size % 2 = 0 := by
    show (words.flatMap wordBytes).toArray.size % 2 = 0
    rw [List.size_toArray, length_flatMap_wordBytes]
    omega
  rw [ofBytes, if_pos even]
  show fitting (wordsOfBytes (words.flatMap wordBytes)) = fitting words
  rw [wordsOfBytes_flatMap]

/-- Bytes that are read as a program are those that the program is written as. -/
theorem toBytes_of_ofBytes {bytes : ByteArray} {words : List Word}
    (read : ofBytes bytes = .ok words) : toBytes words = bytes := by
  unfold ofBytes at read
  split at read
  · next pairs =>
    obtain ⟨rfl, -⟩ := fitting_eq_ok_iff.mp read
    have same : (wordsOfBytes bytes.data.toList).flatMap wordBytes = bytes.data.toList :=
      flatMap_wordsOfBytes pairs
    rw [toBytes, same, Array.toArray_toList]
  · cases read

/-! ### Both forms -/

/-- **Both forms of a program are read back**: to the words that were written if these fit in
memory, while longer programs are refused for their length in both. What is read is written back
as it was, a text without its blank lines and the blanks around the others. -/
theorem encodings_read_back :
    (∀ words : List Word, words.length ≤ 4096 →
      ofText (toText words) = .ok words ∧ ofBytes (toBytes words) = .ok words) ∧
    (∀ words : List Word, 4096 < words.length →
      ofText (toText words) = .error (.tooLarge words.length) ∧
        ofBytes (toBytes words) = .error (.tooLarge words.length)) ∧
    (∀ bytes words, ofBytes bytes = .ok words → toBytes words = bytes) ∧
    ∀ text words, ofText text = .ok words → toText words = tidied text := by
  refine ⟨fun words fits => ?_, fun words large => ?_, fun _ _ => toBytes_of_ofBytes,
    fun _ _ => toText_of_ofText⟩
  · rw [ofText_toText, ofBytes_toBytes, fitting, if_pos fits]
    exact ⟨rfl, rfl⟩
  · rw [ofText_toText, ofBytes_toBytes, fitting, if_neg (Nat.not_le_of_lt large)]
    exact ⟨rfl, rfl⟩

/-- Two words are read from untidy text and from four bytes, and a word more than memory holds is
too much in both forms. -/
theorem encodings_read_back_two_words :
    let text := "0001000100000101\r\n\n \t\r\n  1111000000000000\u00a0"
    let bytes : ByteArray := ⟨#[0x11, 0x05, 0xF0, 0x00]⟩
    let words : List Word := [0x1105, 0xF000]
    let large : List Word := List.replicate 4097 0xF000
    (words.length ≤ 4096 ∧ ofText (toText words) = .ok words ∧ ofBytes (toBytes words) = .ok words) ∧
      (4096 < large.length ∧ ofText (toText large) = .error (.tooLarge large.length) ∧
        ofBytes (toBytes large) = .error (.tooLarge large.length)) ∧
      (ofBytes bytes = .ok words ∧ toBytes words = bytes) ∧
      ofText text = .ok words ∧ toText words = tidied text := by
  intro text bytes words large
  obtain ⟨fitting, tooLarge, ofBytes, ofText⟩ := encodings_read_back
  have fits : words.length ≤ 4096 := by decide
  have exceeds : 4096 < large.length := by
    rw [List.length_replicate]
    decide
  have bytesRead : Program.ofBytes bytes = .ok words := by decide +kernel
  have textRead : Program.ofText text = .ok words := by decide +kernel
  exact ⟨⟨fits, fitting words fits⟩, ⟨exceeds, tooLarge large exceeds⟩,
    ⟨bytesRead, ofBytes bytes words bytesRead⟩, textRead, ofText text words textRead⟩

end Program

end Asm16
