/-
**Renaming labels in a source.**

* `Line.Content.namings` — the tokens of a line that name labels: the name that it declares and the
  operands that are declared names.
* `Source.renamed` — a source in which these tokens are replaced where they stand.
* `Line.Content.Tidy` — a line with name characters in all its tokens.
* `Source.exists_replaces_label`, `Source.exists_replaces_instruction` — a line with its tokens
  replaced is a line of the same kind.
* `Source.wordings_renamed` — the lines of a renamed source say what those of the source say, the
  names of labels replaced.
-/

import Asm16.Proofs.Assembly.Printing
import Asm16.Proofs.Assembly.Scanning
import Asm16.Proofs.Assembly.Wording

namespace Asm16

/-- The tokens of a line that name one of the given labels. -/
def Line.Content.namings (names : List String) : Line.Content → List Token
  | .blank | .comment => []
  | .label name => [name]
  | .instruction _ operands => operands.filter (·.text ∈ names)

/-- What a line says when labels are renamed. -/
def Wording.renamed (rename : String → String) (names : List String) : Wording → Wording
  | .blank => .blank
  | .comment => .comment
  | .label name => .label (rename name)
  | .instruction mnemonic operands =>
    .instruction mnemonic (operands.map (Source.replaceName rename names))

/-- A line whose tokens are made of name characters and whose label is one of the given ones. -/
structure Line.Content.Tidy (names : List String) (content : Line.Content) : Prop where
  characters : ∀ token ∈ content.tokens, ∀ c ∈ token.text.toList, IsNameCharacter c
  listed : ∀ name, content = .label name → name.text ∈ names

/-- Only given labels are named. -/
theorem Line.Content.Tidy.mem_names {names : List String} {content : Line.Content}
    (tidy : content.Tidy names) {token : Token} (member : token ∈ content.namings names) :
    token.text ∈ names := by
  cases content with
  | blank | comment => cases member
  | label name =>
    obtain rfl := List.mem_singleton.mp member
    exact tidy.listed token rfl
  | instruction mnemonic operands =>
    obtain ⟨-, listed⟩ := List.mem_filter.mp member
    simpa using listed

namespace Source

/-- A source with its labels renamed, where they are declared and where operands name them. -/
def renamed (rename : String → String) (source : String) : String :=
  String.ofList (replaceTokens rename 0
    ((lines source).flatMap fun line => line.content.namings (labelNames (lines source)))
    source.toList)

/-! ### Characters of a line -/

/-- The characters of a line of separators and names. -/
def IsCodeCharacter (c : Char) : Prop :=
  isSeparator c = true ∨ IsNameCharacter c

theorem isSeparator_of_isNameCharacter {c : Char} (character : IsNameCharacter c) :
    isSeparator c = false := by
  have checked := isNameCharacter_iff.mpr character
  rw [Outline.isNameCharacter, Bool.or_eq_true, beq_iff_eq] at checked
  rcases checked with alphanumeric | rfl
  · exact isSeparator_of_isAlphanum alphanumeric
  · rfl

theorem isBlank_of_isNameCharacter {c : Char} (character : IsNameCharacter c) :
    Text.isBlank c = false :=
  (Bool.or_eq_false_iff.mp (isSeparator_of_isNameCharacter character)).1

theorem IsCodeCharacter.ne {c : Char} (isCode : IsCodeCharacter c) : c ≠ '#' ∧ c ≠ ':' := by
  rcases isCode with separator | character
  · refine ⟨?_, ?_⟩ <;> rintro rfl <;> cases separator
  · have checked := isNameCharacter_iff.mpr character
    refine ⟨?_, ?_⟩ <;> rintro rfl <;> cases checked

theorem ne_feed_of_isNameCharacter {c : Char} (character : IsNameCharacter c) : c ≠ '\n' := by
  rintro rfl
  cases isNameCharacter_iff.mpr character

/-- A character of a text is a separator or belongs to a token. -/
theorem isSeparator_or_mem_tokens {text : List Char} {c : Char} (member : c ∈ text)
    (offset : Nat) :
    isSeparator c = true ∨ ∃ token ∈ tokens offset text, c ∈ token.text.toList := by
  induction text using words_induction generalizing offset with
  | gap gap separators => exact .inl (separators c member)
  | word gap word rest leads ih =>
    rw [leads.tokens_eq]
    rcases List.mem_append.mp member with inGap | member
    · exact .inl (leads.separators c inGap)
    · rcases List.mem_append.mp member with inWord | inRest
      · refine .inr ⟨_, List.mem_cons_self, ?_⟩
        rwa [String.toList_ofList]
      · rcases ih inRest (offset + Text.utf8Length gap + Text.utf8Length word) with
          separator | ⟨token, inTokens, inText⟩
        · exact .inl separator
        · exact .inr ⟨token, List.mem_cons_of_mem _ inTokens, inText⟩

/-! ### Lines -/

section Line

variable {rename : String → String} {names : List String} {offset : Nat} {text : List Char}

/-- A name between blanks, with a colon after it, declares a label. -/
theorem lexes_label {margin name gap trailing : List Char}
    (marginBlanks : ∀ c ∈ margin, Text.isBlank c = true)
    (gapBlanks : ∀ c ∈ gap, Text.isBlank c = true)
    (trailingBlanks : ∀ c ∈ trailing, Text.isBlank c = true) (nonempty : name ≠ [])
    (characters : ∀ c ∈ name, IsNameCharacter c) (offset : Nat) (remark : List Char) :
    Lexes offset (margin ++ (name ++ ((gap ++ [':']) ++ trailing))) remark
      (.label ⟨String.ofList name, offset + Text.utf8Length margin⟩) := by
  have solid (c : Char) (member : c ∈ name) : Text.isBlank c = false :=
    isBlank_of_isNameCharacter (characters c member)
  have trims : Trims (margin ++ (name ++ ((gap ++ [':']) ++ trailing))) margin
      (name ++ (gap ++ [':'])) trailing := by
    refine ⟨by simp, by simp, marginBlanks, fun c head => ?_, fun c last => ?_, trailingBlanks⟩
    · rw [List.head?_append_of_ne_nil _ nonempty] at head
      exact solid c (List.mem_of_head? head)
    · rw [← List.append_assoc, List.getLast?_concat] at last
      obtain rfl := Option.some.inj last
      rfl
  exact .label trims (fun c last => solid c (List.mem_of_getLast? last)) gapBlanks

/-- A label is renamed where it is declared. -/
theorem exists_replaces_label (proper : ∀ name ∈ names, IsLabelName (rename name)) {token : Token}
    (content : classify offset text = .label token) (listed : token.text ∈ names) :
    ∃ result, Replaces rename offset [token] text result ∧
      wording result = .label (rename token.text) := by
  obtain ⟨remark, parts⟩ := exists_remarked text
  have label := proper _ listed
  cases (lexes_iff parts).mpr content.symm with
  | @label margin name gap trailing trims _ gapBlanks =>
    let renamed := (rename (String.ofList name)).toList
    have replaces : Replaces rename offset [⟨String.ofList name, offset + Text.utf8Length margin⟩]
        (code text) (margin ++ (renamed ++ ((gap ++ [':']) ++ trailing))) := by
      rw [trims.whole, List.append_assoc name]
      exact .token (.done _ _)
    have noHash : '#' ∉ margin ++ (renamed ++ ((gap ++ [':']) ++ trailing)) := by
      intro member
      rcases replaces.mem_cases member with inText | ⟨_, named, inName⟩
      · exact parts.noHash inText
      · obtain rfl := List.mem_singleton.mp named
        exact (IsCodeCharacter.ne (.inr (label.characters _ inName))).1 rfl
    have lexes := lexes_label trims.lead gapBlanks trims.trail
      (fun none => label.nonempty (String.toList_eq_nil_iff.mp none)) label.characters 0 remark
    have whole := replaces.append_same remark
    rw [← parts.whole] at whole
    refine ⟨_, whole, ?_⟩
    rw [wording, ← (lexes_iff ⟨rfl, noHash, parts.hash⟩).mp lexes, Line.Content.wording,
      String.ofList_toList]

/-- An instruction line without words has no operands. -/
theorem tokens_of_classify {mnemonic : Token} {operands : List Token}
    (content : classify offset text = .instruction mnemonic operands) :
    tokens offset (code text) = mnemonic :: operands ∨ operands = [] := by
  obtain ⟨remark, parts⟩ := exists_remarked text
  cases (lexes_iff parts).mpr content.symm with
  | instruction _ _ runs => exact .inl (runs_iff.mp runs).symm
  | commas => exact .inr rfl

/-- Labels are renamed where operands name them. -/
theorem exists_replaces_instruction (proper : ∀ name ∈ names, IsLabelName (rename name))
    {mnemonic : Token} {operands : List Token}
    (found : tokens offset (code text) = mnemonic :: operands)
    (characters : ∀ token ∈ mnemonic :: operands, ∀ c ∈ token.text.toList, IsNameCharacter c) :
    ∃ result, Replaces rename offset (operands.filter (·.text ∈ names)) text result ∧
      wording result = .instruction mnemonic.text
        ((operands.map Token.text).map (replaceName rename names)) := by
  obtain ⟨remark, whole, -, hash⟩ := exists_remarked text
  rcases separators_or_leads (code text) with separators | ⟨gap, word, rest, split, leads⟩
  · rw [tokens_of_separators separators] at found
    cases found
  have inCode (c : Char) (member : c ∈ code text) : IsCodeCharacter c := by
    refine (isSeparator_or_mem_tokens member offset).imp id ?_
    rintro ⟨token, inTokens, inText⟩
    exact characters token (found ▸ inTokens) c inText
  -- The mnemonic is the first word, whatever it looks like, and names are replaced after it only.
  rw [split] at found inCode whole
  rw [leads.tokens_eq] at found
  obtain ⟨rfl, rfl⟩ := List.cons.inj found
  obtain ⟨result, replaces, renamed, starts⟩ := exists_replaces_words
    (fun name listed =>
      ⟨(proper name listed).nonempty, fun c member =>
        isSeparator_of_isNameCharacter ((proper name listed).characters c member)⟩)
    rest (offset + Text.utf8Length gap + Text.utf8Length word)
  have leads' : Leads gap word result :=
    ⟨leads.separators, leads.nonempty, leads.solid, starts leads.ends⟩
  have stays (c : Char) (member : c ∈ gap ++ (word ++ result)) : IsCodeCharacter c := by
    rcases List.mem_append.mp member with inGap | member
    · exact inCode c (List.mem_append_left _ inGap)
    rcases List.mem_append.mp member with inWord | inResult
    · exact inCode c (by simp [inWord])
    rcases replaces.mem_cases inResult with inRest | ⟨token, inTokens, inName⟩
    · exact inCode c (by simp [inRest])
    · obtain ⟨-, listed⟩ := List.mem_filter.mp inTokens
      exact .inr ((proper _ (by simpa using listed)).characters c inName)
  have coded : code ((gap ++ (word ++ result)) ++ remark) = gap ++ (word ++ result) :=
    Remarked.code_eq ⟨rfl, fun member => (stays _ member).ne.1 rfl, hash⟩
  -- A line of separators and names stays an instruction: no colon makes it a label.
  have noColon : ':' ∉ code ((gap ++ (word ++ result)) ++ remark) := by
    rw [coded]
    exact fun member => (stays _ member).ne.2 rfl
  obtain ⟨first, others, content, first_text, others_texts⟩ :=
    classify_of_words noColon (by rw [coded, leads'.words_eq]) 0
  refine ⟨(gap ++ (word ++ result)) ++ remark, whole ▸ replaces.lead.lead.append_same remark, ?_⟩
  rw [wording, content, Line.Content.wording, first_text, others_texts, renamed, map_text_tokens]

/-- **A line with its labels renamed says what it said, with the new names.** -/
theorem exists_replaces_line (proper : ∀ name ∈ names, IsLabelName (rename name))
    (tidy : (classify offset text).Tidy names) :
    ∃ result, Replaces rename offset ((classify offset text).namings names) text result ∧
      wording result = (wording text).renamed rename names := by
  rw [← wording_classify offset text]
  cases content : classify offset text with
  | blank =>
    refine ⟨text, .done _ _, ?_⟩
    rw [← wording_classify offset text, content]
    rfl
  | comment =>
    refine ⟨text, .done _ _, ?_⟩
    rw [← wording_classify offset text, content]
    rfl
  | label name => exact exists_replaces_label proper content (tidy.listed name content)
  | instruction mnemonic operands =>
    rcases tokens_of_classify content with found | rfl
    · refine exists_replaces_instruction proper found ?_
      rw [content] at tidy
      exact tidy.characters
    · refine ⟨text, .done _ _, ?_⟩
      rw [← wording_classify offset text, content]
      rfl

/-- A line that is followed by a line feed, or by nothing, says what it said, with the new names. -/
theorem exists_replaces_piece (proper : ∀ name ∈ names, IsLabelName (rename name))
    {line : List Char} (oneLine : '\n' ∉ line)
    (tidy : (classify offset (Text.dropEndWhile isLineEnd line)).Tidy names) :
    ∃ result, Replaces rename offset
        ((classify offset (Text.dropEndWhile isLineEnd line)).namings names) line result ∧
      '\n' ∉ result ∧ (line ≠ [] → result ≠ []) ∧
      wording result = (wording line).renamed rename names := by
  obtain ⟨ends, split, lineEnds⟩ := Text.exists_dropEndWhile_append isLineEnd line
  obtain ⟨result, replaces, said⟩ := exists_replaces_line proper tidy
  have whole := replaces.append_same ends
  rw [← split] at whole
  refine ⟨result ++ ends, whole, fun member => ?_, whole.ne_nil fun token named => ?_, ?_⟩
  · rcases whole.mem_cases member with inLine | ⟨token, named, inName⟩
    · exact oneLine inLine
    · exact ne_feed_of_isNameCharacter
        ((proper _ (tidy.mem_names named)).characters _ inName) rfl
  · exact (proper _ (tidy.mem_names named)).nonempty
  · rw [wording_append lineEnds, said, wording_dropEndWhile]

end Line

/-! ### Sources -/

section Lines

variable {rename : String → String} {names : List String}

/-- The lines of a text with its labels renamed say what they said, with the new names. -/
theorem exists_replaces_lines (proper : ∀ name ∈ names, IsLabelName (rename name))
    (text : List Char) (number offset : Nat)
    (tidy : ∀ line ∈ linesOfPieces number offset (Text.lines text), line.content.Tidy names) :
    ∃ result, Replaces rename offset ((linesOfPieces number offset (Text.lines text)).flatMap
        fun line => line.content.namings names) text result ∧
      (Text.lines result).map wording =
        ((Text.lines text).map wording).map (Wording.renamed rename names) := by
  induction text using Text.lines_induction generalizing number offset with
  | nil => exact ⟨[], .done _ _, rfl⟩
  | last line nonempty oneLine =>
    rw [Text.lines_of_oneLine oneLine nonempty] at tidy ⊢
    obtain ⟨result, replaces, oneLine, something, said⟩ :=
      exists_replaces_piece proper oneLine (tidy _ List.mem_cons_self)
    refine ⟨result, ?_, ?_⟩
    · rw [linesOfPieces, linesOfPieces, List.flatMap_singleton]
      exact replaces
    · rw [Text.lines_of_oneLine oneLine (something nonempty), List.map_singleton,
        List.map_singleton, List.map_singleton, said]
  | feed line rest oneLine ih =>
    rw [Text.lines_append_feed oneLine, linesOfPieces] at tidy ⊢
    have dropped : Text.dropEndWhile isLineEnd (line ++ ['\n']) =
        Text.dropEndWhile isLineEnd line := List.rdropWhile_concat_pos _ _ _ rfl
    rw [List.forall_mem_cons] at tidy
    rw [dropped] at tidy ⊢
    obtain ⟨head, replaces, oneLine', -, said⟩ := exists_replaces_piece proper oneLine tidy.1
    obtain ⟨result, later, others⟩ := ih (number + 1) _ tidy.2
    refine ⟨(head ++ ['\n']) ++ result, ?_, ?_⟩
    · rw [List.flatMap_cons, List.append_cons line '\n' rest]
      exact (replaces.append_same ['\n']).append later
    · rw [List.append_assoc, List.singleton_append, Text.lines_append_feed oneLine', List.map_cons,
        List.map_cons, List.map_cons, wording_concat rfl, wording_concat rfl, said, others]

theorem map_wording_lines (source : String) :
    ((lines source).map fun line => line.content.wording) =
      (Text.lines source.toList).map wording := by
  have worded := congrArg (List.map Prod.fst) (map_worded_lines source)
  rwa [List.map_map, List.zipIdx_map_fst] at worded

/-- **The lines of a renamed source say what those of the source say**, with the new names. -/
theorem wordings_renamed {source : String}
    (proper : ∀ name ∈ labelNames (lines source), IsLabelName (rename name))
    (tidy : ∀ line ∈ lines source, line.content.Tidy (labelNames (lines source))) :
    List.Forall₂ (fun line other : Line => other.content.wording =
        line.content.wording.renamed rename (labelNames (lines source)))
      (lines source) (lines (renamed rename source)) := by
  obtain ⟨result, replaces, said⟩ := exists_replaces_lines proper source.toList 1 0 tidy
  have text : (renamed rename source).toList = result := by
    rw [renamed, String.toList_ofList]
    exact replaces.replaceTokens_eq
  have same := map_wording_lines (renamed rename source)
  rw [text, said, ← map_wording_lines, List.map_map, ← List.forall₂_eq_eq_eq,
    List.forall₂_map_left_iff, List.forall₂_map_right_iff] at same
  exact same.flip

end Lines

end Source

end Asm16
