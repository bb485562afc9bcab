/-
**The texts that encode programs.**

* `Program.rows` — the lines of a text without the blanks around them.
* `Program.IsWordRow`, `Program.Spells` — a row of sixteen binary digits, and the word whose bits
  these are; by `Program.exists_spells` every such row spells a word.
* `Program.Outcome` — what comes of reading rows: the words that they spell, the first row that is
  none, or the number of words that are too many.
* `Program.exists_ofText_iff_and_ofText_eq_iff` — exactly the texts of at most 4096 words and blank
  rows are read, and every text is read with its outcome.
-/

import Asm16.Proofs.Program.Encoding

namespace Asm16

/-! ### Digits and bits -/

/-- Each digit of a binary numeral is a bit of the number it denotes, the last one the lowest. -/
theorem Numeral.getElem?_eq_testBit {digits : List Char} (bits : ∀ c ∈ digits, isBit c = true)
    {place : Nat} (within : place < digits.length) : digits[place]? =
      some (if (binaryValue digits).testBit (digits.length - 1 - place) then '1' else '0') := by
  induction digits using List.reverseRecOn with
  | nil => cases within
  | append_singleton digits last ih =>
    rw [List.length_append, List.length_singleton] at within
    rw [binaryValue_concat, List.length_append, List.length_singleton, Nat.add_sub_cancel]
    have lastBit := isBit_iff.mp (bits last (by simp))
    by_cases before : place < digits.length
    · have position : digits.length - place = (digits.length - 1 - place) + 1 := by omega
      have half : (2 * binaryValue digits + (last.toNat - 48)) / 2 = binaryValue digits := by
        rcases lastBit with rfl | rfl <;> simp only [Char.reduceToNat] <;> omega
      rw [List.getElem?_append_left before, position, Nat.testBit_succ, half]
      exact ih (fun c member => bits c (by simp [member])) before
    · obtain rfl : place = digits.length := by omega
      rw [List.getElem?_append_right (Nat.le_refl _), Nat.sub_self, Nat.testBit_zero]
      rcases lastBit with rfl | rfl <;> simp [Char.reduceToNat]

namespace Program

/-! ### Rows -/

/-- A line without the carriage return that ends it, if there is one. -/
def withoutReturn (line : List Char) : List Char :=
  if line.getLast? = some '\r' then line.dropLast else line

/-- The lines of a text without the blanks around them. Line feeds part them, with or without a
carriage return before. -/
def rows (text : String) : List (List Char) :=
  let pieces := text.toList.splitOn '\n'
  (pieces.dropLast.map withoutReturn ++ pieces.getLast?.toList).map Text.trim

/-- A row of sixteen binary digits. -/
def IsWordRow (row : List Char) : Prop :=
  row.length = 16 ∧ ∀ c ∈ row, c = '0' ∨ c = '1'

/-- A row spells a word: its digits are the bits of the word, the most significant one first. -/
structure Spells (row : List Char) (word : Word) : Prop where
  length : row.length = 16
  digits : ∀ place < 16,
    row[place]? = some (if word.toNat.testBit (15 - place) then '1' else '0')

/-- What comes of reading rows: a program, if all of them that are not blank are words and these fit
in memory; else a mistake in the first row that is none, with its number counted from one; else too
many words. -/
inductive Outcome (rows : List (List Char)) : Except ProgramError (List Word) → Prop
  | program {words : List Word} (good : ∀ row ∈ rows, row = [] ∨ IsWordRow row)
      (spelled : List.Forall₂ Spells (rows.filter (· ≠ [])) words)
      (fits : (rows.filter (· ≠ [])).length ≤ 4096) : Outcome rows (.ok words)
  | malformed {before after : List (List Char)} {row : List Char}
      (split : rows = before ++ row :: after) (good : ∀ row ∈ before, row = [] ∨ IsWordRow row)
      (nonempty : row ≠ []) (bad : ¬ IsWordRow row) :
      Outcome rows (.error (.malformedLine (before.length + 1) (String.ofList row)))
  | tooLarge (good : ∀ row ∈ rows, row = [] ∨ IsWordRow row)
      (large : 4096 < (rows.filter (· ≠ [])).length) :
      Outcome rows (.error (.tooLarge (rows.filter (· ≠ [])).length))

theorem trim_withoutReturn (line : List Char) :
    Text.trim (withoutReturn line) = Text.trim line := by
  unfold withoutReturn
  split
  · next last =>
    obtain ⟨front, rfl⟩ := List.getLast?_eq_some_iff.mp last
    rw [List.dropLast_concat, Text.trim_append_blank rfl]
  · rfl

/-- The carriage returns before line feeds are blanks like others. -/
theorem rows_eq_map_trim (text : String) :
    rows text = (text.toList.splitOn '\n').map Text.trim := by
  have nonempty : text.toList.splitOn '\n' ≠ [] := List.splitOn_ne_nil _ _
  have trimmed : Text.trim ∘ withoutReturn = Text.trim := funext trim_withoutReturn
  simp only [rows]
  rw [List.map_append, List.map_map, trimmed, ← List.map_append,
    List.getLast?_eq_some_getLast nonempty, Option.toList_some, List.dropLast_append_getLast]

/-- A line feed at the end of a text adds a blank row, which is skipped. -/
theorem ofText_eq_wordsOfLines (text : String) :
    ofText text = wordsOfLines 1 (rows text) >>= fitting := by
  have same (text : List Char) (number : Nat) :
      wordsOfLines number ((Text.lines text).map Text.trim) =
        wordsOfLines number ((text.splitOn '\n').map Text.trim) := by
    induction text using Text.lines_induction generalizing number with
    | nil => rfl
    | last line nonempty oneLine =>
      rw [Text.lines_of_oneLine oneLine nonempty, List.splitOn_eq_singleton oneLine]
    | feed line rest oneLine ih =>
      rw [Text.lines_append_feed oneLine, List.splitOn_append_cons_self_of_not_mem oneLine,
        List.map_cons, List.map_cons, Text.trim_append_blank rfl, wordsOfLines, wordsOfLines, ih]
  rw [ofText, rows_eq_map_trim, same]

/-! ### Words -/

theorem isWordLine_iff {row : List Char} : isWordLine row = true ↔ IsWordRow row := by
  rw [isWordLine, Bool.and_eq_true, beq_iff_eq, List.all_eq_true]
  simp only [Numeral.isBit_iff]
  exact Iff.rfl

/-- The row that spells a word is the line that the word is written as. -/
theorem spells_iff {row : List Char} {word : Word} : Spells row word ↔ row = wordLine word := by
  have written : Spells (wordLine word) word := by
    refine ⟨length_wordLine word, fun place within => ?_⟩
    have value : Numeral.binaryValue (wordLine word) = word.toNat := Numeral.binaryValue_padded _ _
    have bits : ∀ c ∈ wordLine word, Numeral.isBit c = true := Numeral.isBit_of_mem_padded
    have digit := Numeral.getElem?_eq_testBit bits (within.trans_eq (length_wordLine word).symm)
    rwa [length_wordLine word, value] at digit
  refine ⟨fun spells => List.ext_getElem? fun place => ?_, fun same => same ▸ written⟩
  by_cases within : place < 16
  · rw [spells.digits place within, written.digits place within]
  · rw [List.getElem?_eq_none (spells.length.trans_le (Nat.le_of_not_lt within)),
      List.getElem?_eq_none (written.length.trans_le (Nat.le_of_not_lt within))]

/-- A row of sixteen binary digits spells a word. -/
theorem exists_spells {row : List Char} (isWord : IsWordRow row) : ∃ word, Spells row word :=
  ⟨_, spells_iff.mpr (wordLine_ofNat_binaryValue (isWordLine_iff.mpr isWord)).symm⟩

theorem forall₂_spells_iff {rows : List (List Char)} {words : List Word} :
    List.Forall₂ Spells rows words ↔ rows = words.map wordLine := by
  rw [← List.forall₂_eq_eq_eq, List.forall₂_map_right_iff]
  exact List.forall₂_congr fun row word _ => spells_iff

/-! ### Outcomes -/

section Outcomes

variable {rows before after : List (List Char)} {row : List Char}

theorem exists_spelled (good : ∀ row ∈ rows, row = [] ∨ IsWordRow row) :
    ∃ words, List.Forall₂ Spells (rows.filter (· ≠ [])) words := by
  refine List.exists_forall₂ fun row member => ?_
  obtain ⟨inRows, nonempty⟩ := List.mem_filter.mp member
  exact exists_spells ((good row inRows).resolve_left (of_decide_eq_true nonempty))

/-- Reading stops at the first row that is neither blank nor a word. -/
theorem wordsOfLines_malformed (good : ∀ row ∈ before, row = [] ∨ IsWordRow row)
    (nonempty : row ≠ []) (bad : ¬ IsWordRow row) (number : Nat) :
    wordsOfLines number (before ++ row :: after) =
      .error (.malformedLine (number + before.length) (String.ofList row)) := by
  induction before generalizing number with
  | nil =>
    rw [List.nil_append, wordsOfLines, if_neg (by simp [nonempty]),
      if_neg (mt isWordLine_iff.mp bad)]
    rfl
  | cons first before ih =>
    have rest := ih (fun other inBefore => good other (by simp [inBefore])) (number + 1)
    rw [List.cons_append, wordsOfLines, rest, List.length_cons, Nat.add_right_comm, Nat.add_assoc]
    rcases good first (by simp) with rfl | isWord
    · rfl
    · have filled : first ≠ [] := by
        rintro rfl
        cases isWord.1
      rw [if_neg (by simp [filled]), if_pos (isWordLine_iff.mpr isWord)]

/-- Something comes of reading any rows. -/
theorem exists_outcome (rows : List (List Char)) : ∃ outcome, Outcome rows outcome := by
  by_cases good : ∀ row ∈ rows, row = [] ∨ IsWordRow row
  · obtain ⟨words, spelled⟩ := exists_spelled good
    by_cases fits : (rows.filter (· ≠ [])).length ≤ 4096
    · exact ⟨_, .program good spelled fits⟩
    · exact ⟨_, .tooLarge good (Nat.lt_of_not_le fits)⟩
  · have lacking : ∃ row ∈ rows, ¬ (row = [] ∨ IsWordRow row) := by
      simpa only [not_forall, exists_prop] using good
    obtain ⟨before, row, after, split, earlier, bad⟩ := List.exists_first lacking
    rw [not_or] at bad
    exact ⟨_, .malformed split earlier bad.1 bad.2⟩

end Outcomes

variable {text : String} {outcome : Except ProgramError (List Word)}

theorem ofText_of_outcome (comes : Outcome (rows text) outcome) : ofText text = outcome := by
  rw [ofText_eq_wordsOfLines]
  cases comes with
  | program _ spelled fits =>
    rw [wordsOfLines_eq_ok_iff.mpr (forall₂_spells_iff.mp spelled)]
    exact fitting_eq_ok_iff.mpr ⟨rfl, spelled.length_eq ▸ fits⟩
  | malformed split good nonempty bad =>
    rw [split, wordsOfLines_malformed good nonempty bad, Nat.add_comm]
    rfl
  | tooLarge good large =>
    obtain ⟨words, spelled⟩ := exists_spelled good
    rw [wordsOfLines_eq_ok_iff.mpr (forall₂_spells_iff.mp spelled), spelled.length_eq] at *
    exact if_neg (Nat.not_le_of_lt large)

theorem outcome_of_ofText (text : String) : Outcome (rows text) (ofText text) := by
  obtain ⟨outcome, comes⟩ := exists_outcome (rows text)
  exact ofText_of_outcome comes ▸ comes

/-- **Exactly the texts of words and blank rows are read**, if the words fit in memory. Every text
is read with its outcome: the words that its rows spell; or else the first row that is neither blank
nor a word, however many words there are before it; or else the number of words. -/
theorem exists_ofText_iff_and_ofText_eq_iff (text : String) :
    ((∃ words, ofText text = .ok words) ↔ (∀ row ∈ rows text, row = [] ∨ IsWordRow row) ∧
        ((rows text).filter (· ≠ [])).length ≤ 4096) ∧
      ∀ outcome, ofText text = outcome ↔ Outcome (rows text) outcome := by
  refine ⟨⟨?_, ?_⟩, fun outcome => ⟨fun same => same ▸ outcome_of_ofText text, ofText_of_outcome⟩⟩
  · rintro ⟨words, read⟩
    cases read ▸ outcome_of_ofText text with
    | program good _ fits => exact ⟨good, fits⟩
  · rintro ⟨good, fits⟩
    obtain ⟨words, spelled⟩ := exists_spelled good
    exact ⟨words, ofText_of_outcome (.program good spelled fits)⟩

/-- Rows are numbered with the blank ones, and a mistake is reported without the blanks around. -/
example : ofText "0001000100000101\r\n\n\u00a02é \r\n0\n" = .error (.malformedLine 3 "2é") := by
  decide +kernel

end Program

end Asm16
