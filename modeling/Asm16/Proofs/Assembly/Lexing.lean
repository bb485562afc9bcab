/-
**What the lexer makes of a text.**

* `Text.lines_append_feed` — a line ends with its line feed.
* `Source.words` — the words of a text, without their places; `Source.map_text_tokens` says that the
  tokens have these texts.
* `Source.words_append_separator` — a separator parts the words before it from the words after it.
* `Source.classify_of_words`, `Source.classify_of_blank` — a line with words and no colon holds an
  instruction, a line with blanks only holds nothing.
-/

import Asm16.Source
import Mathlib.Data.List.DropRight
import Mathlib.Data.List.SplitBy

namespace Asm16

/-! ### Lines -/

namespace Text

variable {text : List Char}

theorem isChain_line (oneLine : '\n' ∉ text) {last : List Char} (short : last.length ≤ 1) :
    (text ++ last).IsChain fun c _ => (c != '\n') = true := by
  induction text with
  | nil =>
    obtain _ | ⟨c, _ | _⟩ := last
    · exact .nil
    · exact .singleton c
    · simp at short
  | cons c text ih =>
    rw [List.mem_cons, not_or] at oneLine
    rw [List.cons_append, List.isChain_cons]
    exact ⟨fun _ _ => bne_iff_ne.mpr (Ne.symm oneLine.1), ih oneLine.2⟩

/-- A line ends with its line feed. -/
theorem lines_append_feed (oneLine : '\n' ∉ text) (rest : List Char) :
    lines (text ++ '\n' :: rest) = (text ++ ['\n']) :: lines rest := by
  have regrouped : text ++ '\n' :: rest = (text ++ ['\n']) ++ rest := by simp
  have chain : (text ++ ['\n']).IsChain fun c _ => (c != '\n') = true :=
    isChain_line oneLine (Nat.le_refl 1)
  unfold lines
  rw [regrouped, List.splitBy_append (by simp), List.splitBy_of_isChain (by simp) chain]
  rfl

/-- A text without line feeds is one line. -/
theorem lines_of_oneLine (oneLine : '\n' ∉ text) (nonempty : text ≠ []) : lines text = [text] := by
  have chain : (text ++ []).IsChain fun c _ => (c != '\n') = true :=
    isChain_line oneLine (Nat.zero_le 1)
  rw [List.append_nil] at chain
  exact List.splitBy_of_isChain nonempty chain

/-- A text is nothing, or one line, or a line with its line feed before another text. -/
theorem lines_induction {motive : List Char → Prop} (nil : motive [])
    (last : ∀ line, line ≠ [] → '\n' ∉ line → motive line)
    (feed : ∀ line rest, '\n' ∉ line → motive rest → motive (line ++ '\n' :: rest))
    (text : List Char) : motive text := by
  induction length : text.length using Nat.strong_induction_on generalizing text with
  | _ length ih =>
    by_cases more : '\n' ∈ text
    · obtain ⟨line, rest, rfl, oneLine⟩ := List.eq_append_cons_of_mem more
      refine feed line rest oneLine (ih rest.length ?_ rest rfl)
      rw [← length, List.length_append, List.length_cons]
      omega
    · by_cases nonempty : text = []
      · exact nonempty ▸ nil
      · exact last text nonempty more

/-! ### Ends of a text -/

/-- What is dropped at the end of a text. -/
theorem exists_dropEndWhile_append (dropped : Char → Bool) (text : List Char) :
    ∃ rest, text = dropEndWhile dropped text ++ rest ∧ ∀ c ∈ rest, dropped c = true :=
  ⟨text.rtakeWhile dropped, (List.rdropWhile_append_rtakeWhile ..).symm,
    fun _ => List.mem_rtakeWhile_imp⟩

/-- What is kept of a text does not end in a character that is dropped. -/
theorem not_dropped_of_mem_getLast? (dropped : Char → Bool) (text : List Char) :
    ∀ c ∈ (dropEndWhile dropped text).getLast?, dropped c = false := by
  intro c last
  obtain ⟨nonempty, rfl⟩ := List.mem_getLast?_eq_getLast last
  exact Bool.eq_false_iff.mpr (List.rdropWhile_last_not _ _ nonempty)

/-- Exactly the characters after the last one that is kept are dropped. -/
theorem dropEndWhile_append {dropped : Char → Bool} {kept rest : List Char}
    (ends : ∀ c ∈ kept.getLast?, dropped c = false) (drops : ∀ c ∈ rest, dropped c = true) :
    dropEndWhile dropped (kept ++ rest) = kept := by
  have all : ∀ c ∈ rest.reverse, dropped c = true :=
    fun c member => drops c (List.mem_reverse.mp member)
  unfold dropEndWhile
  rw [List.reverse_append, List.dropWhile_append_of_pos all]
  refine List.rdropWhile_eq_self_iff.mpr fun nonempty => ?_
  simp [ends _ (List.getLast?_eq_some_getLast nonempty)]

/-- Nothing is dropped before a character that is kept. -/
theorem dropEndWhile_append_cons {dropped : Char → Bool} {c : Char} (kept : dropped c = false)
    (text rest : List Char) :
    dropEndWhile dropped (text ++ c :: rest) = text ++ c :: dropEndWhile dropped rest := by
  unfold dropEndWhile
  rw [List.reverse_append, List.reverse_cons, List.append_assoc, List.dropWhile_append,
    List.singleton_append, List.dropWhile_cons_of_neg (by simp [kept])]
  split
  · next none =>
    rw [List.isEmpty_iff.mp none]
    simp
  · simp

theorem mem_of_mem_trim {c : Char} (member : c ∈ trim text) : c ∈ text :=
  (List.dropWhile_suffix _).subset ((List.rdropWhile_prefix _ _).subset member)

/-- Exactly blanks are trimmed away. -/
theorem trim_eq_nil_iff : trim text = [] ↔ ∀ c ∈ text, isBlank c = true := by
  have kept : trim text = [] ↔ ∀ c ∈ text.dropWhile isBlank, isBlank c = true :=
    List.rdropWhile_eq_nil_iff
  rw [kept]
  constructor
  · intro blank c member
    rw [← List.takeWhile_append_dropWhile (p := isBlank) (l := text), List.mem_append] at member
    rcases member with leading | member
    · exact List.mem_takeWhile_imp leading
    · exact blank c member
  · exact fun blank c member => blank c ((List.dropWhile_suffix _).subset member)

/-- A blank at the end of a text is trimmed away. -/
theorem trim_append_blank {c : Char} (blank : isBlank c = true) (text : List Char) :
    trim (text ++ [c]) = trim text := by
  unfold trim trimStart
  rw [List.dropWhile_append]
  split
  · next none =>
    rw [List.isEmpty_iff.mp none, List.dropWhile_cons_of_pos blank]
    rfl
  · exact List.rdropWhile_concat_pos _ _ _ blank

/-- Nothing is trimmed away from a text without blanks. -/
theorem trim_eq_self (solid : ∀ c ∈ text, isBlank c = false) : trim text = text := by
  have start : text.dropWhile isBlank = text := by
    cases text with
    | nil => rfl
    | cons c text => exact List.dropWhile_cons_of_neg (by simp [solid c])
  unfold trim trimStart
  rw [start]
  refine List.rdropWhile_eq_self_iff.mpr fun nonempty => ?_
  simp [solid _ (List.getLast_mem nonempty)]

/-- It does not matter to the lines of a text without their blanks whether a line feed ends a line
or parts it from the next one, but for a blank line at the end. -/
theorem filter_map_trim_lines (text : List Char) : ((lines text).map trim).filter (· ≠ []) =
    ((text.splitOn '\n').map trim).filter (· ≠ []) := by
  induction text using lines_induction with
  | nil => rfl
  | last line nonempty oneLine =>
    rw [lines_of_oneLine oneLine nonempty, List.splitOn_eq_singleton oneLine]
  | feed line rest oneLine ih =>
    rw [lines_append_feed oneLine, List.splitOn_append_cons_self_of_not_mem oneLine, List.map_cons,
      List.map_cons, trim_append_blank rfl, List.filter_cons, List.filter_cons, ih]

end Text

namespace Source

/-! ### Words -/

/-- The words of a text: its maximal runs without separators. -/
def words (text : List Char) : List (List Char) :=
  (text.splitBy fun c next => isSeparator c == isSeparator next).filter
    fun run => !run.all isSeparator

/-- The tokens of a text are its words. -/
theorem map_text_tokens (offset : Nat) (text : List Char) :
    (tokens offset text).map Token.text = (words text).map String.ofList := by
  unfold tokens words
  generalize text.splitBy _ = runs
  induction runs generalizing offset with
  | nil => rfl
  | cons run runs ih =>
    unfold tokensOfRuns
    by_cases separators : run.all isSeparator = true
    · rw [if_pos separators, List.filter_cons_of_neg (by simp [separators])]
      exact ih _
    · rw [if_neg separators, List.filter_cons_of_pos (by simpa using separators), List.map_cons,
        List.map_cons, ih]

variable {text left right gap word : List Char}

/-- Texts that meet at a word's end have the words of both. -/
theorem words_append (apart : ∀ c ∈ left.getLast?, ∀ next ∈ right.head?,
    isSeparator c ≠ isSeparator next) : words (left ++ right) = words left ++ words right := by
  unfold words
  rw [List.splitBy_append, List.filter_append]
  exact fun c last next head => beq_false_of_ne (apart c last next head)

theorem words_of_separators (separators : ∀ c ∈ gap, isSeparator c = true) : words gap = [] := by
  unfold words
  rw [List.filter_eq_nil_iff]
  intro run member
  have all : run.all isSeparator = true := by
    rw [List.all_eq_true]
    intro c inRun
    refine separators c ?_
    rw [← List.flatten_splitBy (fun c next => isSeparator c == isSeparator next) gap]
    exact List.mem_flatten_of_mem member inRun
  simp [all]

theorem isChain_word (solid : ∀ c ∈ word, isSeparator c = false) :
    word.IsChain fun c next => (isSeparator c == isSeparator next) = true := by
  refine (List.pairwise_of_forall_mem_list fun c inWord next alsoInWord => ?_).isChain
  rw [solid c inWord, solid next alsoInWord]
  rfl

theorem not_all_isSeparator (nonempty : word ≠ []) (solid : ∀ c ∈ word, isSeparator c = false) :
    ¬ word.all isSeparator = true := by
  obtain ⟨c, inWord⟩ := List.exists_mem_of_ne_nil word nonempty
  rw [List.all_eq_true]
  intro all
  have separator := all c inWord
  rw [solid c inWord] at separator
  cases separator

theorem words_of_word (nonempty : word ≠ []) (solid : ∀ c ∈ word, isSeparator c = false) :
    words word = [word] := by
  have kept := not_all_isSeparator nonempty solid
  unfold words
  rw [List.splitBy_of_isChain nonempty (isChain_word solid),
    List.filter_cons_of_pos (by simpa using kept), List.filter_nil]

/-- Separators at the front of a text belong to no word. -/
theorem words_separators_append (separators : ∀ c ∈ gap, isSeparator c = true)
    (text : List Char) : words (gap ++ text) = words text := by
  -- The separators at the front of the text join those before it.
  have after {gap : List Char} (separators : ∀ c ∈ gap, isSeparator c = true) :
      words (gap ++ text.dropWhile isSeparator) = words (text.dropWhile isSeparator) := by
    rw [words_append, words_of_separators separators, List.nil_append]
    intro c last next head
    rw [separators c (List.mem_of_getLast? last)]
    have solid := List.head?_dropWhile_not isSeparator text
    rw [head] at solid
    simpa using solid
  have leading : ∀ c ∈ text.takeWhile isSeparator, isSeparator c = true :=
    fun _ => List.mem_takeWhile_imp
  conv_lhs => rw [← List.takeWhile_append_dropWhile (p := isSeparator) (l := text)]
  conv_rhs => rw [← List.takeWhile_append_dropWhile (p := isSeparator) (l := text)]
  rw [after leading, ← List.append_assoc, after]
  intro c member
  exact (List.mem_append.mp member).elim (separators c) (leading c)

/-- A text is one that ends with a word, and separators after it. -/
theorem exists_kept_append_trailing (text : List Char) : ∃ kept trailing, text = kept ++ trailing ∧
    (∀ c ∈ kept.getLast?, isSeparator c = false) ∧ ∀ c ∈ trailing, isSeparator c = true := by
  obtain ⟨trailing, split, separators⟩ := Text.exists_dropEndWhile_append isSeparator text
  exact ⟨_, trailing, split, Text.not_dropped_of_mem_getLast? isSeparator text, separators⟩

/-- **A separator parts the words before it from the words after it.** -/
theorem words_append_separator {c : Char} (separator : isSeparator c = true)
    (left right : List Char) : words (left ++ c :: right) = words left ++ words right := by
  obtain ⟨kept, trailing, rfl, solid, separators⟩ := exists_kept_append_trailing left
  have apart {rest : List Char} (starts : ∀ next ∈ rest.head?, isSeparator next = true) :
      words (kept ++ rest) = words kept ++ words rest := by
    refine words_append fun c last next head => ?_
    rw [solid c last, starts next head]
    exact Bool.false_ne_true
  have joined : ∀ next ∈ trailing ++ [c], isSeparator next = true := by
    intro next member
    rcases List.mem_append.mp member with inTrailing | last
    · exact separators next inTrailing
    · rwa [List.mem_singleton.mp last]
  have starts : ∀ next ∈ ((trailing ++ [c]) ++ right).head?, isSeparator next = true := by
    intro next head
    rw [List.head?_append_of_ne_nil _ (by simp)] at head
    exact joined next (List.mem_of_head? head)
  calc words ((kept ++ trailing) ++ c :: right)
      = words (kept ++ ((trailing ++ [c]) ++ right)) := by simp
    _ = words kept ++ words right := by rw [apart starts, words_separators_append joined]
    _ = words (kept ++ trailing) ++ words right := by
        rw [apart fun next head => separators next (List.mem_of_head? head),
          words_of_separators separators, List.append_nil]

/-- Separators at the end of a text belong to no word. -/
theorem words_append_separators (separators : ∀ c ∈ gap, isSeparator c = true)
    (text : List Char) : words (text ++ gap) = words text := by
  cases gap with
  | nil => rw [List.append_nil]
  | cons c gap =>
    have inGap : ∀ next ∈ gap, isSeparator next = true :=
      fun next member => separators next (by simp [member])
    rw [words_append_separator (separators c (by simp)), words_of_separators inGap,
      List.append_nil]

/-! ### Lines without labels -/

theorem isSeparator_of_isBlank {c : Char} (blank : Text.isBlank c = true) :
    isSeparator c = true := by
  rw [isSeparator, blank]
  rfl

/-- A line with blanks only, its comment aside, holds nothing. -/
theorem classify_of_blank (blank : ∀ c ∈ code text, Text.isBlank c = true) (offset : Nat) :
    classify offset text = .blank ∨ classify offset text = .comment := by
  unfold classify
  simp only [Text.trim_eq_nil_iff.mpr blank, List.isEmpty_nil, if_true]
  split
  · exact .inr rfl
  · exact .inl rfl

/-- A line with words and no colon, its comment aside, holds the instruction with these words. -/
theorem classify_of_words {operands : List (List Char)} (noColon : ':' ∉ code text)
    (found : words (code text) = word :: operands) (offset : Nat) :
    ∃ first rest, classify offset text = .instruction first rest ∧
      first.text = String.ofList word ∧ rest.map Token.text = operands.map String.ofList := by
  have texts := map_text_tokens offset (code text)
  rw [found, List.map_cons] at texts
  obtain ⟨first, rest, tokens, first_text, rest_texts⟩ := List.map_eq_cons_iff.mp texts
  have nonempty : Text.trim (code text) ≠ [] := by
    intro blank
    have separators := words_of_separators fun c member =>
      isSeparator_of_isBlank (Text.trim_eq_nil_iff.mp blank c member)
    rw [found] at separators
    cases separators
  have noLabel : (Text.trim (code text)).getLast? ≠ some ':' :=
    fun last => noColon (Text.mem_of_mem_trim (List.mem_of_getLast? last))
  refine ⟨first, rest, ?_, first_text, rest_texts⟩
  unfold classify
  simp only [List.isEmpty_eq_false_iff.mpr nonempty, noLabel, tokens, if_false,
    Bool.false_eq_true]

/-! ### Comments -/

theorem code_of_no_hash (noHash : '#' ∉ text) : code text = text := by
  unfold code
  rw [List.takeWhile_eq_self_iff]
  intro c member
  exact bne_iff_ne.mpr fun same => noHash (same ▸ member)

theorem code_append_hash (noHash : '#' ∉ text) (remark : List Char) :
    code (text ++ '#' :: remark) = text := by
  have kept : ∀ c ∈ text, (c != '#') = true :=
    fun c member => bne_iff_ne.mpr fun same => noHash (same ▸ member)
  unfold code
  rw [List.takeWhile_append_of_pos kept, List.takeWhile_cons_of_neg (by simp), List.append_nil]

end Source

end Asm16
