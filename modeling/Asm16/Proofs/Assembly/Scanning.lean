/-
**The lexer finds exactly the lines and the words of a source.**

What the lines of a source hold, said of the source as it is:

* `Source.Remarked` — a line up to its first `#`, and its comment from there on.
* `Source.Runs` — the maximal runs of a text without separators, as tokens at their places.
* `Source.Trims` — a text between the blanks at its ends.
* `Source.Lexes` — what a line holds: nothing, a comment, a label or an instruction. By
  `Source.lexes_iff` it is what the lexer finds, and nothing else.
* `Source.Tiles` — numbered lines take up a source from end to end, without gap or overlap.
* `Source.lines_exact` — the lines that the lexer finds are the only ones that do, and their tokens
  cover the texts that they have.
-/

import Asm16.Proofs.Assembly.Replacement

namespace Asm16

namespace Source

/-! ### Comments -/

/-- A line is what is written up to its first `#`, and a remark from there on. -/
structure Remarked (body written remark : List Char) : Prop where
  whole : body = written ++ remark
  noHash : '#' ∉ written
  hash : ∀ c ∈ remark.head?, c = '#'

theorem exists_remarked (body : List Char) : ∃ remark, Remarked body (code body) remark := by
  refine ⟨body.dropWhile (· != '#'), List.takeWhile_append_dropWhile.symm, ?_, ?_⟩
  · intro member
    have kept := List.mem_takeWhile_imp (p := (· != '#')) member
    cases kept
  · intro c head
    have stops := List.head?_dropWhile_not (· != '#') body
    rw [Option.mem_def.mp head] at stops
    simpa using stops

section Remarked

variable {body written remark : List Char}

theorem Remarked.code_eq (parts : Remarked body written remark) : code body = written := by
  rw [parts.whole]
  cases remark with
  | nil => rw [List.append_nil, code_of_no_hash parts.noHash]
  | cons c rest =>
    obtain rfl := parts.hash c rfl
    exact code_append_hash parts.noHash rest

theorem Remarked.length_code_lt_iff (parts : Remarked body written remark) :
    (code body).length < body.length ↔ remark ≠ [] := by
  rw [parts.code_eq, parts.whole, List.length_append, ← List.length_pos_iff]
  omega

end Remarked

/-! ### Words -/

/-- The tokens of a text that starts at byte `offset` are its maximal runs without separators. -/
inductive Runs : Nat → List Char → List Token → Prop
  | gap {offset : Nat} {gap : List Char} (separators : ∀ c ∈ gap, isSeparator c = true) :
      Runs offset gap []
  | word {offset : Nat} {gap word rest : List Char} {later : List Token}
      (leads : Leads gap word rest)
      (runs : Runs (offset + Text.utf8Length gap + Text.utf8Length word) rest later) :
      Runs offset (gap ++ (word ++ rest))
        (⟨String.ofList word, offset + Text.utf8Length gap⟩ :: later)

/-- The tokens that the lexer finds are the maximal runs without separators. -/
theorem runs_iff {offset : Nat} {text : List Char} {found : List Token} :
    Runs offset text found ↔ found = tokens offset text := by
  constructor
  · intro runs
    induction runs with
    | gap separators => rw [tokens_of_separators separators]
    | word leads _ ih => rw [leads.tokens_eq, ih]
  · rintro rfl
    induction text using words_induction generalizing offset with
    | gap gap separators =>
      rw [tokens_of_separators separators]
      exact .gap separators
    | word gap word rest leads ih =>
      rw [leads.tokens_eq]
      exact .word leads ih

end Source

/-- A token ends before another one starts. -/
def Token.Before (first second : Token) : Prop :=
  first.offset < second.offset ∧ first.span.offset + first.span.length ≤ second.span.offset

namespace Source

variable {offset : Nat} {text lead core trail : List Char} {found : List Token}

theorem Runs.le_offset (runs : Runs offset text found) {token : Token} (member : token ∈ found) :
    offset ≤ token.offset := by
  induction runs with
  | gap => cases member
  | word _ _ ih =>
    rcases List.mem_cons.mp member with rfl | member
    · exact Nat.le_add_right _ _
    · have later := ih member
      omega

/-- The words of a text follow each other. -/
theorem Runs.ordered (runs : Runs offset text found) : found.Pairwise Token.Before := by
  induction runs with
  | gap => exact .nil
  | @word offset gap word rest later leads runs ih =>
    refine .cons (fun token member => ?_) ih
    have after := runs.le_offset member
    have positive : 0 < Text.utf8Length word := by
      obtain ⟨c, others, rfl⟩ := List.exists_cons_of_ne_nil leads.nonempty
      exact Nat.lt_of_lt_of_le c.utf8Size_pos (Nat.le_add_right _ _)
    refine ⟨show offset + Text.utf8Length gap < token.offset by omega, ?_⟩
    show offset + Text.utf8Length gap + (String.ofList word).utf8ByteSize ≤ token.offset
    rwa [Text.utf8ByteSize_ofList]

/-! ### Blanks at the ends -/

/-- A text is blanks, then something that neither starts nor ends with one, then blanks. -/
structure Trims (text lead core trail : List Char) : Prop where
  whole : text = lead ++ (core ++ trail)
  nonempty : core ≠ []
  lead : ∀ c ∈ lead, Text.isBlank c = true
  front : ∀ c ∈ core.head?, Text.isBlank c = false
  back : ∀ c ∈ core.getLast?, Text.isBlank c = false
  trail : ∀ c ∈ trail, Text.isBlank c = true

theorem Trims.split (trims : Trims text lead core trail) :
    text.takeWhile Text.isBlank = lead ∧ Text.trimStart text = core ++ trail := by
  obtain ⟨first, rest, same⟩ := List.exists_cons_of_ne_nil trims.nonempty
  have solid : ¬ Text.isBlank first = true := by simp [trims.front first (by rw [same]; rfl)]
  rw [trims.whole, Text.trimStart, List.takeWhile_append_of_pos trims.lead,
    List.dropWhile_append_of_pos trims.lead, same, List.cons_append,
    List.takeWhile_cons_of_neg solid, List.dropWhile_cons_of_neg solid]
  exact ⟨List.append_nil lead, rfl⟩

theorem Trims.trim_eq (trims : Trims text lead core trail) : Text.trim text = core := by
  rw [Text.trim, trims.split.2]
  exact Text.dropEndWhile_append trims.back trims.trail

theorem exists_trims (filled : ¬ ∀ c ∈ text, Text.isBlank c = true) :
    ∃ lead core trail, Trims text lead core trail := by
  obtain ⟨trail, split, blanks⟩ :=
    Text.exists_dropEndWhile_append Text.isBlank (Text.trimStart text)
  have nonempty : Text.trim text ≠ [] := fun none => filled (Text.trim_eq_nil_iff.mp none)
  refine ⟨text.takeWhile Text.isBlank, Text.trim text, trail, ?_, nonempty,
    fun _ => List.mem_takeWhile_imp, fun c head => ?_,
    Text.not_dropped_of_mem_getLast? Text.isBlank _, blanks⟩
  · conv_lhs => rw [← List.takeWhile_append_dropWhile (p := Text.isBlank) (l := text)]
    exact congrArg _ split
  · have starts := List.head?_dropWhile_not Text.isBlank text
    have same : (Text.trimStart text).head? = (Text.trim text).head? := by
      rw [split]
      exact List.head?_append_of_ne_nil _ nonempty
    rw [show text.dropWhile Text.isBlank = Text.trimStart text from rfl, same,
      Option.mem_def.mp head] at starts
    simpa using starts

/-! ### What a line holds -/

/-- What a line holds that starts at byte `offset`, from what is written on it and its remark. It
declares a label if what is written ends in a colon; a line of commas only is an instruction without
a name. -/
inductive Lexes (offset : Nat) (written remark : List Char) : Line.Content → Prop
  | blank (blanks : ∀ c ∈ written, Text.isBlank c = true) (unremarked : remark = []) :
      Lexes offset written remark .blank
  | comment (blanks : ∀ c ∈ written, Text.isBlank c = true) (remarked : remark ≠ []) :
      Lexes offset written remark .comment
  | label {lead name gap trail : List Char}
      (trims : Trims written lead (name ++ (gap ++ [':'])) trail)
      (ends : ∀ c ∈ name.getLast?, Text.isBlank c = false)
      (gap : ∀ c ∈ gap, Text.isBlank c = true) :
      Lexes offset written remark (.label ⟨String.ofList name, offset + Text.utf8Length lead⟩)
  | instruction {lead core trail : List Char} {mnemonic : Token} {operands : List Token}
      (trims : Trims written lead core trail) (noColon : core.getLast? ≠ some ':')
      (runs : Runs offset written (mnemonic :: operands)) :
      Lexes offset written remark (.instruction mnemonic operands)
  | commas {lead core trail : List Char} (trims : Trims written lead core trail)
      (separators : ∀ c ∈ written, isSeparator c = true) :
      Lexes offset written remark
        (.instruction ⟨String.ofList core, offset + Text.utf8Length lead⟩ [])

variable {body written remark : List Char} {content : Line.Content}

theorem classify_of_trims (offset : Nat) (trims : Trims (code body) lead core trail) :
    classify offset body =
      if core.getLast? = some ':' then
        .label ⟨String.ofList (Text.trimEnd core.dropLast), offset + Text.utf8Length lead⟩
      else
        match tokens offset (code body) with
        | mnemonic :: operands => .instruction mnemonic operands
        | [] => .instruction ⟨String.ofList core, offset + Text.utf8Length lead⟩ [] := by
  have held := classify.eq_def offset body
  simp only [trims.trim_eq, trims.split.1, List.isEmpty_eq_false_iff.mpr trims.nonempty,
    Bool.false_eq_true, if_false] at held
  exact held

/-- Separators do not end in a colon. -/
theorem getLast?_ne_of_separators (separators : ∀ c ∈ core, isSeparator c = true) :
    core.getLast? ≠ some ':' := by
  intro colon
  cases separators ':' (List.mem_of_getLast? colon)

theorem Trims.mem (trims : Trims text lead core trail) {c : Char} (member : c ∈ core) :
    c ∈ text := by
  rw [trims.whole]
  exact List.mem_append_right _ (List.mem_append_left _ member)

/-- A line holds one thing, which the lexer finds. -/
theorem Lexes.eq_classify (lexes : Lexes offset written remark content)
    (parts : Remarked body written remark) : content = classify offset body := by
  cases lexes with
  | blank blanks unremarked =>
    rw [← parts.code_eq] at blanks
    have short := mt parts.length_code_lt_iff.mp (not_not_intro unremarked)
    unfold classify
    simp only [Text.trim_eq_nil_iff.mpr blanks, List.isEmpty_nil, if_true, short, if_false]
  | comment blanks remarked =>
    rw [← parts.code_eq] at blanks
    have long := parts.length_code_lt_iff.mpr remarked
    unfold classify
    simp only [Text.trim_eq_nil_iff.mpr blanks, List.isEmpty_nil, if_true, long]
  | label trims ends gap =>
    rw [← parts.code_eq] at trims
    rw [classify_of_trims offset trims, ← List.append_assoc, if_pos List.getLast?_concat,
      List.dropLast_concat, Text.trimEnd, Text.dropEndWhile_append ends gap]
  | instruction trims noColon runs =>
    rw [← parts.code_eq] at trims runs
    rw [classify_of_trims offset trims, if_neg noColon, ← runs_iff.mp runs]
  | commas trims separators =>
    have noColon := getLast?_ne_of_separators fun c member => separators c (trims.mem member)
    rw [← parts.code_eq] at trims separators
    rw [classify_of_trims offset trims, if_neg noColon, tokens_of_separators separators]

/-- What is trimmed ends in a colon after a name and blanks, if it ends in one. -/
theorem exists_name (colon : core.getLast? = some ':') : ∃ name gap,
    core = name ++ (gap ++ [':']) ∧ (∀ c ∈ name.getLast?, Text.isBlank c = false) ∧
      ∀ c ∈ gap, Text.isBlank c = true := by
  obtain ⟨gap, split, blanks⟩ := Text.exists_dropEndWhile_append Text.isBlank core.dropLast
  refine ⟨Text.trimEnd core.dropLast, gap, ?_,
    Text.not_dropped_of_mem_getLast? Text.isBlank _, blanks⟩
  rw [← List.append_assoc, Text.trimEnd, ← split, List.dropLast_append_getLast? _ colon]

/-- Every line holds something. -/
theorem exists_lexes (offset : Nat) (written remark : List Char) :
    ∃ content, Lexes offset written remark content := by
  by_cases blanks : ∀ c ∈ written, Text.isBlank c = true
  · by_cases remarked : remark = []
    · exact ⟨_, .blank blanks remarked⟩
    · exact ⟨_, .comment blanks remarked⟩
  · obtain ⟨lead, core, trail, trims⟩ := exists_trims blanks
    by_cases colon : core.getLast? = some ':'
    · obtain ⟨name, gap, rfl, ends, gapBlanks⟩ := exists_name colon
      exact ⟨_, .label trims ends gapBlanks⟩
    · cases found : tokens offset written with
      | nil =>
        cases runs_iff.mpr found.symm with
        | gap separators => exact ⟨_, .commas trims separators⟩
      | cons => exact ⟨_, .instruction trims colon (runs_iff.mpr found.symm)⟩

/-- **A line holds exactly what the lexer finds.** -/
theorem lexes_iff (parts : Remarked body written remark) :
    Lexes offset written remark content ↔ content = classify offset body := by
  constructor
  · exact fun lexes => lexes.eq_classify parts
  · rintro rfl
    obtain ⟨content, lexes⟩ := exists_lexes offset written remark
    rwa [← lexes.eq_classify parts]

/-- The tokens of a line follow each other. -/
theorem Lexes.ordered (lexes : Lexes offset written remark content) :
    content.tokens.Pairwise Token.Before := by
  cases lexes with
  | blank | comment => exact .nil
  | label | commas => exact List.pairwise_singleton _ _
  | instruction _ _ runs => exact runs.ordered

/-! ### The lines of a source -/

/-- Numbered lines take up a source from a place on: each is followed by the characters that end it,
and these by the next line. -/
inductive Tiles (source : List Char) : Nat → List Char → List Line → Prop
  | done (number : Nat) : Tiles source number source []
  | line {number : Nat} {earlier body written remark ending later : List Char}
      {content : Line.Content} {lines : List Line}
      (isLine : IsLine source earlier body ending later) (nonempty : body ++ ending ≠ [])
      (parts : Remarked body written remark)
      (lexes : Lexes (Text.utf8Length earlier) written remark content)
      (rest : Tiles source (number + 1) (earlier ++ (body ++ ending)) lines) :
      Tiles source number earlier
        (⟨number, ⟨Text.utf8Length earlier, Text.utf8Length body⟩, content⟩ :: lines)

/-- The lines that the lexer finds take up the source. -/
theorem tiles_linesOfPieces {earlier text : List Char} (number : Nat)
    (begins : ∀ c ∈ earlier.getLast?, c = '\n') : Tiles (earlier ++ text) number earlier
      (linesOfPieces number (Text.utf8Length earlier) (Text.lines text)) := by
  -- The lines of the text go into `earlier` one by one.
  induction length : text.length using Nat.strong_induction_on generalizing text earlier number with
  | _ length ih =>
    by_cases filled : text = []
    · subst filled
      rw [List.append_nil]
      exact .done number
    · obtain ⟨body, ending, later, rfl, nonempty, isLine⟩ := exists_isLine_append begins filled
      obtain ⟨remark, parts⟩ := exists_remarked body
      rw [isLine.lines_eq nonempty, linesOfPieces, isLine.dropEndWhile_eq]
      refine .line isLine nonempty parts ((lexes_iff parts).mpr rfl) ?_
      rw [← Text.utf8Length_append]
      have whole : earlier ++ (body ++ (ending ++ later)) =
          (earlier ++ (body ++ ending)) ++ later := by simp
      rw [whole]
      by_cases more : later = []
      · subst more
        rw [List.append_nil]
        exact .done _
      · refine ih later.length ?_ (number + 1) (isLine.next more).1 rfl
        have := List.length_pos_of_ne_nil nonempty
        simp only [← length, List.length_append] at this ⊢
        omega

theorem tiles_lines (source : String) : Tiles source.toList 1 [] (lines source) :=
  @tiles_linesOfPieces [] source.toList 1 nofun

variable {source earlier : List Char} {number : Nat} {lines : List Line}

/-- Lines that take up a source are those that the lexer finds. -/
theorem Tiles.eq_linesOfPieces (tiles : Tiles source number earlier lines) {text : List Char}
    (rest : source = earlier ++ text) :
    lines = linesOfPieces number (Text.utf8Length earlier) (Text.lines text) := by
  induction tiles generalizing text with
  | done number =>
    obtain rfl := List.self_eq_append_right.mp rest
    rfl
  | @line number earlier body written remark ending later content lines isLine nonempty parts lexes
      _ ih =>
    obtain rfl : text = body ++ (ending ++ later) :=
      List.append_cancel_left (rest.symm.trans isLine.split)
    rw [isLine.lines_eq nonempty, linesOfPieces, isLine.dropEndWhile_eq, ← Text.utf8Length_append,
      lexes.eq_classify parts, ← ih (rest.trans (by simp))]

/-- No line follows the end of a source. -/
theorem Tiles.eq_nil (tiles : Tiles source number source lines) : lines = [] :=
  tiles.eq_linesOfPieces (List.append_nil source).symm

/-- A line of a source is numbered by the line feeds before it. -/
theorem Tiles.exists_isLine (tiles : Tiles source number earlier lines)
    (counted : number = earlier.count '\n' + 1) {line : Line} (member : line ∈ lines) :
    ∃ before body ending later, IsLine source before body ending later ∧
      line.number = before.count '\n' + 1 ∧
      line.span = ⟨Text.utf8Length before, Text.utf8Length body⟩ ∧
      line.content = classify (Text.utf8Length before) body := by
  induction tiles with
  | done => cases member
  | @line _ earlier body _ _ ending later _ _ isLine _ parts lexes rest ih =>
    rcases List.mem_cons.mp member with rfl | member
    · exact ⟨earlier, body, ending, later, isLine, counted, rfl, lexes.eq_classify parts⟩
    · refine ih ?_ member
      by_cases more : later = []
      · subst more
        have whole := isLine.split
        rw [List.append_nil] at whole
        rw [← whole] at rest
        rw [rest.eq_nil] at member
        cases member
      · rw [(isLine.next more).2, counted]

/-- **The lines that the lexer finds are those of the source**: a line is numbered by the line feeds
before it, its stretch is its body, and what it holds is read off that. -/
theorem exists_isLine {source : String} {found : Line} (member : found ∈ Source.lines source) :
    ∃ before body ending later, IsLine source.toList before body ending later ∧
      found.number = before.count '\n' + 1 ∧
      found.span = ⟨Text.utf8Length before, Text.utf8Length body⟩ ∧
      found.content = classify (Text.utf8Length before) body :=
  (tiles_lines source).exists_isLine rfl member

/-! ### Lines and tokens in their places -/

/-- A line in its place in a source. What it holds is read off what is written on it before its
remark, and there its tokens stand one after another, each with the bytes of its text. -/
structure Placed (source : String) (line : Line) (earlier written remark ending later : List Char) :
    Prop where
  isLine : IsLine source.toList earlier (written ++ remark) ending later
  parts : Remarked (written ++ remark) written remark
  covers : line.span.Covers source earlier (written ++ remark) (ending ++ later)
  holds : ∀ content, Lexes line.span.offset written remark content ↔ content = line.content
  tokens : ∀ token ∈ line.content.tokens, ∃ lead rest,
    written = lead ++ (token.text.toList ++ rest) ∧
    token.span.Covers source (earlier ++ lead) token.text.toList
      (rest ++ (remark ++ (ending ++ later))) ∧
    source.toUTF8.extract token.span.offset (token.span.offset + token.span.length) =
      token.text.toUTF8
  ordered : line.content.tokens.Pairwise Token.Before

/-- A line stands in its place. -/
theorem exists_placed {source : String} {line : Line} (member : line ∈ Source.lines source) :
    ∃ earlier written remark ending later,
      Placed source line earlier written remark ending later := by
  obtain ⟨earlier, body, ending, later, isLine, -, span, content⟩ := exists_isLine member
  obtain ⟨remark, parts⟩ := exists_remarked body
  have holds (other : Line.Content) :
      Lexes line.span.offset (code body) remark other ↔ other = line.content := by
    rw [lexes_iff parts, span, content]
  have whole := parts.whole
  rw [whole] at isLine
  refine ⟨earlier, code body, remark, ending, later, isLine, ⟨rfl, parts.noHash, parts.hash⟩,
    ⟨isLine.split, by rw [span], by rw [span, ← whole]⟩, holds, fun token inTokens => ?_,
    ((holds _).mpr rfl).ordered⟩
  rw [content] at inTokens
  obtain ⟨lead, rest, split, offset⟩ := stands_code_of_mem_tokens inTokens
  have covers : token.span.Covers source (earlier ++ lead) token.text.toList
      (rest ++ (remark ++ (ending ++ later))) := by
    refine ⟨?_, ?_, ?_⟩
    · rw [isLine.split, split]
      simp
    · rw [Text.utf8Length_append]
      exact offset
    · rw [← Text.utf8ByteSize_ofList, String.ofList_toList]
      rfl
  exact ⟨lead, rest, split, covers, by rw [covers.bytes, String.ofList_toList]⟩

/-- **The lexer finds exactly the lines and the words of a source.** Its lines are the only ones
that are numbered one by one and take up the source without gap or overlap, each with what it holds;
and the stretch of every token covers its text on what is written before the comment of its line. -/
theorem lines_exact (source : String) :
    (∀ found, Tiles source.toList 1 [] found ↔ found = Source.lines source) ∧
      ∀ line ∈ Source.lines source, ∃ earlier written remark ending later,
        Placed source line earlier written remark ending later := by
  refine ⟨fun found => ⟨fun tiles => tiles.eq_linesOfPieces rfl, ?_⟩, fun _ => exists_placed⟩
  rintro rfl
  exact tiles_lines source

/-- A label of two bytes before a comment, an instruction after a blank of three bytes with two
commas in a row, and a line of commas that ends the source with a carriage return. -/
theorem lines_exact_of_mixed_lines :
    let source := "\u00e9 : # x\r\n\u3000add r1,,r2#\n, ,\r"
    let label : Line := ⟨1, ⟨0, 8⟩, .label ⟨"\u00e9", 0⟩⟩
    let add : Line := ⟨2, ⟨10, 14⟩, .instruction ⟨"add", 13⟩ [⟨"r1", 17⟩, ⟨"r2", 21⟩]⟩
    let commas : Line := ⟨3, ⟨25, 3⟩, .instruction ⟨", ,", 25⟩ []⟩
    Tiles source.toList 1 [] [label, add, commas] ∧ add ∈ Source.lines source ∧
      ∃ earlier written remark ending later,
        Placed source add earlier written remark ending later := by
  intro source label add commas
  have found : Source.lines source = [label, add, commas] := by decide +kernel
  have member : add ∈ Source.lines source := by simp [found]
  obtain ⟨only, placed⟩ := lines_exact source
  exact ⟨(only _).mpr found.symm, member, placed add member⟩

end Source

end Asm16
