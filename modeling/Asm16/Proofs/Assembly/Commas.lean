/-
**Commas as blanks.**

* `Source.blankCommas`, `Source.blankCode` — a text with a blank for each of its commas, and a line
  with blanks for the commas before its comment.
* `Source.Runs.blankCommas` — the words of a text stay where they are.
* `Source.lastSolid` — the last character of a text that parts no words.
* `Source.classify_blankCode_iff` — a line keeps its instruction exactly if it has a word, and its
  last one does not end in a colon.
-/

import Asm16.Assembly
import Asm16.Proofs.Assembly.Scanning

namespace Asm16.Source

/-- A blank for a comma. -/
def blankComma (c : Char) : Char :=
  if c = ',' then ' ' else c

/-- A text with a blank for each of its commas. -/
def blankCommas (text : List Char) : List Char :=
  text.map blankComma

/-- A line with a blank for each comma before its comment. -/
def blankCode (body : List Char) : List Char :=
  blankCommas (code body) ++ body.dropWhile (· != '#')

/-! ### Characters -/

theorem blankComma_of_ne {c : Char} (other : c ≠ ',') : blankComma c = c :=
  if_neg other

theorem blankComma_ne (c : Char) : blankComma c ≠ ',' := by
  unfold blankComma
  split
  · decide
  · assumption

theorem isSeparator_blankComma (c : Char) : isSeparator (blankComma c) = isSeparator c := by
  unfold blankComma
  split
  · next comma =>
    subst comma
    rfl
  · rfl

theorem utf8Size_blankComma (c : Char) : (blankComma c).utf8Size = c.utf8Size := by
  unfold blankComma
  split
  · next comma =>
    subst comma
    rfl
  · rfl

theorem ne_comma_of_solid {c : Char} (solid : isSeparator c = false) : c ≠ ',' := by
  rintro rfl
  cases solid

/-- Only commas part words without being blank. -/
theorem isBlank_eq_isSeparator {c : Char} (other : c ≠ ',') :
    Text.isBlank c = isSeparator c := by
  rw [isSeparator, beq_false_of_ne other, Bool.or_false]

/-! ### Words -/

variable {offset : Nat} {text gap word rest lead core trail : List Char} {found : List Token}

theorem utf8Length_blankCommas (text : List Char) :
    Text.utf8Length (blankCommas text) = Text.utf8Length text := by
  induction text with
  | nil => rfl
  | cons c text ih =>
    show (blankComma c).utf8Size + Text.utf8Length (blankCommas text) = _
    rw [ih, utf8Size_blankComma]
    rfl

theorem blankCommas_of_solid (solid : ∀ c ∈ word, isSeparator c = false) :
    blankCommas word = word :=
  (List.map_congr_left fun c member =>
    blankComma_of_ne (ne_comma_of_solid (solid c member))).trans (List.map_id word)

theorem blankCommas_append (text rest : List Char) :
    blankCommas (text ++ rest) = blankCommas text ++ blankCommas rest :=
  List.map_append

theorem separators_blankCommas (separators : ∀ c ∈ gap, isSeparator c = true) :
    ∀ c ∈ blankCommas gap, isSeparator c = true := by
  intro c member
  obtain ⟨original, inGap, rfl⟩ := List.mem_map.mp member
  rw [isSeparator_blankComma]
  exact separators original inGap

theorem Leads.blankCommas (leads : Leads gap word rest) :
    Leads (blankCommas gap) word (blankCommas rest) := by
  refine ⟨separators_blankCommas leads.separators, leads.nonempty, leads.solid, fun c head => ?_⟩
  obtain ⟨original, first, rfl⟩ := Option.map_eq_some_iff.mp (List.head?_map.symm.trans head)
  rw [isSeparator_blankComma]
  exact leads.ends original first

/-- **With blanks for its commas, a text has the same words in the same places.** -/
theorem Runs.blankCommas (runs : Runs offset text found) :
    Runs offset (blankCommas text) found := by
  induction runs with
  | gap separators => exact .gap (separators_blankCommas separators)
  | @word _ gap _ _ _ leads _ ih =>
    rw [blankCommas_append, blankCommas_append, blankCommas_of_solid leads.solid,
      ← utf8Length_blankCommas gap]
    exact .word leads.blankCommas (by rwa [utf8Length_blankCommas])

/-- No word is empty, and none holds a separator. -/
theorem Runs.solid (runs : Runs offset text found) :
    ∀ token ∈ found, token.text ≠ "" ∧ ∀ c ∈ token.text.toList, isSeparator c = false := by
  induction runs with
  | gap => nofun
  | word leads _ ih =>
    refine List.forall_mem_cons.mpr ⟨⟨fun none => ?_, ?_⟩, ih⟩
    · exact leads.nonempty (String.ofList_eq_empty_iff.mp none)
    · rw [String.toList_ofList]
      exact leads.solid

/-! ### The last character of a word -/

/-- The last character of a text that parts no words. -/
def lastSolid (text : List Char) : Option Char :=
  (text.filter fun c => !isSeparator c).getLast?

theorem lastSolid_eq_none_iff :
    lastSolid text = none ↔ ∀ c ∈ text, isSeparator c = true := by
  rw [lastSolid, List.getLast?_eq_none_iff, List.filter_eq_nil_iff]
  simp only [Bool.not_eq_true', Bool.not_eq_false]

theorem lastSolid_blankCommas (text : List Char) :
    lastSolid (blankCommas text) = lastSolid text := by
  have kept : (text.filter fun c => !isSeparator c).map blankComma =
      text.filter fun c => !isSeparator c :=
    blankCommas_of_solid fun c member => by simpa using (List.mem_filter.mp member).2
  have same : (fun c => !isSeparator c) ∘ blankComma = fun c => !isSeparator c := by
    funext c
    rw [Function.comp_apply, isSeparator_blankComma]
  rw [lastSolid, blankCommas, List.filter_map, same, kept]
  rfl

/-- Where no commas are, what is left of a text without the blanks at its ends ends in a word. -/
theorem Trims.getLast?_eq (trims : Trims text lead core trail) (noComma : ',' ∉ text) :
    core.getLast? = lastSolid text := by
  have blanks : trail.filter (fun c => !isSeparator c) = [] := by
    refine List.filter_eq_nil_iff.mpr fun c member => ?_
    simp [isSeparator_of_isBlank (trims.trail c member)]
  obtain ⟨start, last, rfl⟩ := (List.eq_nil_or_concat' core).resolve_left trims.nonempty
  have inText : last ∈ text := trims.mem (by simp)
  have other : last ≠ ',' := fun comma => noComma (comma ▸ inText)
  have solid : isSeparator last = false := by
    rw [← isBlank_eq_isSeparator other]
    exact trims.back last List.getLast?_concat
  rw [lastSolid, trims.whole, List.filter_append, List.filter_append, blanks, List.append_nil,
    List.filter_append, List.filter_cons_of_pos (by simp [solid]), List.filter_nil,
    ← List.append_assoc, List.getLast?_concat, List.getLast?_concat]

/-! ### Lines -/

variable {body written remark : List Char} {mnemonic : Token} {operands : List Token}

theorem Remarked.blankCode (parts : Remarked body written remark) :
    Remarked (blankCode body) (blankCommas written) remark := by
  refine ⟨?_, fun member => ?_, parts.hash⟩
  · have whole : code body ++ body.dropWhile (· != '#') = written ++ remark :=
      List.takeWhile_append_dropWhile.trans parts.whole
    rw [parts.code_eq] at whole
    rw [Source.blankCode, parts.code_eq, List.append_cancel_left whole]
  · obtain ⟨original, inWritten, hash⟩ := List.mem_map.mp member
    unfold blankComma at hash
    split at hash
    · cases hash
    · exact parts.noHash (hash ▸ inWritten)

/-- A line without words holds nothing, with blanks for its commas. -/
theorem classify_blankCode_of_separators (parts : Remarked body written remark)
    (separators : ∀ c ∈ written, isSeparator c = true) (offset : Nat) :
    classify offset (blankCode body) = .blank ∨ classify offset (blankCode body) = .comment := by
  refine classify_of_blank (fun c member => ?_) offset
  rw [parts.blankCode.code_eq] at member
  have separator := separators_blankCommas separators c member
  obtain ⟨original, -, rfl⟩ := List.mem_map.mp member
  rwa [isBlank_eq_isSeparator (blankComma_ne original)]

/-- With blanks for its commas, a line without the blanks at its ends ends in its last word. -/
theorem exists_trims_blankCommas {c : Char} (ends : lastSolid written = some c) :
    ∃ lead core trail, Trims (blankCommas written) lead core trail ∧ core.getLast? = some c := by
  rw [← lastSolid_blankCommas] at ends
  have filled : ¬ ∀ c ∈ blankCommas written, Text.isBlank c = true := by
    intro blanks
    rw [lastSolid_eq_none_iff.mpr fun c member => isSeparator_of_isBlank (blanks c member)] at ends
    cases ends
  obtain ⟨lead, core, trail, trims⟩ := exists_trims filled
  have noComma : ',' ∉ blankCommas written := by
    intro member
    obtain ⟨original, -, comma⟩ := List.mem_map.mp member
    exact blankComma_ne original comma
  exact ⟨lead, core, trail, trims, (trims.getLast?_eq noComma).trans ends⟩

/-- With blanks for its commas, a line whose last word ends in a colon declares a label. -/
theorem classify_blankCode_of_colon (parts : Remarked body written remark)
    (colon : lastSolid written = some ':') (offset : Nat) :
    ∃ name, classify offset (blankCode body) = .label name := by
  obtain ⟨lead, core, trail, trims, last⟩ := exists_trims_blankCommas colon
  obtain ⟨name, gap, rfl, ends, gapBlanks⟩ := exists_name last
  exact ⟨_, ((lexes_iff parts.blankCode).mp (.label trims ends gapBlanks)).symm⟩

/-- With blanks for its commas, a line whose last word does not end in a colon keeps its words. -/
theorem classify_blankCode_of_runs (parts : Remarked body written remark)
    (runs : Runs offset written (mnemonic :: operands)) {c : Char}
    (ends : lastSolid written = some c) (noColon : c ≠ ':') :
    classify offset (blankCode body) = .instruction mnemonic operands := by
  obtain ⟨lead, core, trail, trims, last⟩ := exists_trims_blankCommas ends
  have other : core.getLast? ≠ some ':' := by
    rw [last]
    exact fun same => noColon (Option.some.inj same)
  exact ((lexes_iff parts.blankCode).mp (.instruction trims other runs.blankCommas)).symm

theorem Runs.exists_lastSolid (runs : Runs offset text (mnemonic :: operands)) :
    ∃ c, lastSolid text = some c := by
  refine Option.ne_none_iff_exists'.mp fun none => ?_
  have found := runs_iff.mp runs
  rw [tokens_of_separators (lastSolid_eq_none_iff.mp none)] at found
  cases found

/-- An instruction holds the words of its line, or its line is separators only. -/
theorem runs_or_separators (parts : Remarked body written remark)
    (holds : classify offset body = .instruction mnemonic operands) :
    Runs offset written (mnemonic :: operands) ∨
      (∀ c ∈ written, isSeparator c = true) ∧ ∃ c ∈ mnemonic.text.toList, isSeparator c = true := by
  cases (lexes_iff parts).mpr holds.symm with
  | instruction _ _ runs => exact .inl runs
  | commas trims separators =>
    obtain ⟨c, member⟩ := List.exists_mem_of_ne_nil _ trims.nonempty
    refine .inr ⟨separators, c, ?_, separators c (trims.mem member)⟩
    rwa [String.toList_ofList]

/-- **With blanks for its commas, a line keeps its instruction exactly if it has a word and the last
one does not end in a colon.** The tokens of an instruction are words if and only if its line has
one. -/
theorem classify_blankCode_iff (holds : classify offset body = .instruction mnemonic operands) :
    ((∃ first rest, classify offset (blankCode body) = .instruction first rest ∧
        first.text = mnemonic.text ∧ rest.map Token.text = operands.map Token.text) ↔
      ∃ c, lastSolid (code body) = some c ∧ c ≠ ':') ∧
    ((∃ c, lastSolid (code body) = some c ∧ c ≠ ':') →
      classify offset (blankCode body) = .instruction mnemonic operands) ∧
    ((∀ token ∈ mnemonic :: operands, token.text ≠ "" ∧
        ∀ c ∈ token.text.toList, isSeparator c = false) ↔
      ∃ c, lastSolid (code body) = some c) := by
  obtain ⟨remark, parts⟩ := exists_remarked body
  rcases runs_or_separators parts holds with runs | ⟨separators, c, inWord, separator⟩
  · obtain ⟨c, ends⟩ := runs.exists_lastSolid
    have keeps (other : ∃ c, lastSolid (code body) = some c ∧ c ≠ ':') :
        classify offset (blankCode body) = .instruction mnemonic operands := by
      obtain ⟨c, ends, noColon⟩ := other
      exact classify_blankCode_of_runs parts runs ends noColon
    refine ⟨⟨?_, fun other => ⟨_, _, keeps other, rfl, rfl⟩⟩, keeps,
      iff_of_true runs.solid ⟨c, ends⟩⟩
    rintro ⟨first, rest, kept, -⟩
    refine ⟨c, ends, ?_⟩
    rintro rfl
    obtain ⟨name, label⟩ := classify_blankCode_of_colon parts ends offset
    rw [label] at kept
    cases kept
  · have wordless : ¬ ∃ c, lastSolid (code body) = some c := by
      rw [lastSolid_eq_none_iff.mpr separators]
      nofun
    refine ⟨iff_of_false ?_ fun ⟨c, ends, _⟩ => wordless ⟨c, ends⟩,
      fun ⟨c, ends, _⟩ => absurd ⟨c, ends⟩ wordless, iff_of_false (fun solid => ?_) wordless⟩
    · rintro ⟨first, rest, kept, -⟩
      rcases classify_blankCode_of_separators parts separators offset with blank | comment
      · rw [blank] at kept
        cases kept
      · rw [comment] at kept
        cases kept
    · rw [(solid mnemonic List.mem_cons_self).2 c inWord] at separator
      cases separator

/-- Commas before, between and after the words of a line, and one in its comment. -/
theorem classify_blankCode_of_spread_commas :
    let body := "\t,add r3,r1 ,  r2,# a, b".toList
    let operands : List Token := [⟨"r3", 9⟩, ⟨"r1", 12⟩, ⟨"r2", 18⟩]
    classify 3 body = .instruction ⟨"add", 5⟩ operands ∧
      blankCode body = "\t add r3 r1    r2 # a, b".toList ∧
      classify 3 (blankCode body) = .instruction ⟨"add", 5⟩ operands := by
  intro body operands
  have holds : classify 3 body = .instruction ⟨"add", 5⟩ operands := by decide +kernel
  obtain ⟨-, keeps, -⟩ := classify_blankCode_iff holds
  exact ⟨holds, by decide +kernel, keeps ⟨'2', by decide +kernel, by decide⟩⟩

/-- **Commas are no blanks where no word is, or where the last one ends in a colon**: with blanks
for them, an unknown instruction becomes a blank line, or a label. A source of commas does not
assemble, while one of blanks does. -/
theorem commas_are_no_blanks :
    (classify 0 ",,,".toList = .instruction ⟨",,,", 0⟩ [] ∧
      blankCode ",,,".toList = "   ".toList ∧ classify 0 "   ".toList = .blank) ∧
    (classify 0 "a:,".toList = .instruction ⟨"a:", 0⟩ [] ∧
      blankCode "a:,".toList = "a: ".toList ∧ classify 0 "a: ".toList = .label ⟨"a", 0⟩) ∧
    assemble ",,," = .error ⟨1, ⟨0, 3⟩, .unknownInstruction ",,,"⟩ ∧
    assemble "   " = .ok ⟨[], .empty⟩ := by
  decide +kernel

end Asm16.Source
