/-
**Where the words of a source stand.**

* `Source.IsLine` — a line of a source between what stands before it and after it, without the
  characters that end it; by `Source.exists_isLine_append` a text begins with such a line, and by
  `Source.IsLine.lines_eq` that is the first of its pieces.
* `Source.Stands` — a token stands in a line at its offset; `Source.stands_of_mem_tokens` says so of
  all the tokens that the lexer finds.
* `Span.Covers` — a stretch of a source covers a text; `Span.Covers.bytes` says that its bytes are
  those of the text.
-/

import Asm16.Proofs.Assembly.Lexing

namespace Asm16

/-- The tokens of a line: the name of a label, or a mnemonic and its operands. -/
def Line.Content.tokens : Line.Content → List Token
  | .blank | .comment => []
  | .label name => [name]
  | .instruction mnemonic operands => mnemonic :: operands

/-! ### Stretches of a source -/

/-- A stretch of a source covers the text between two others. It starts and ends between two
characters. -/
structure Span.Covers (span : Span) (source : String) (before text after : List Char) : Prop where
  split : source.toList = before ++ (text ++ after)
  offset : span.offset = Text.utf8Length before
  length : span.length = Text.utf8Length text

namespace Text

theorem utf8ByteSize_ofList (text : List Char) :
    (String.ofList text).utf8ByteSize = utf8Length text := by
  induction text with
  | nil => rfl
  | cons c text ih =>
    rw [String.ofList_cons, String.utf8ByteSize_append, String.utf8ByteSize_singleton, ih,
      utf8Length_cons]

theorem size_toUTF8_ofList (text : List Char) :
    (String.ofList text).toUTF8.size = utf8Length text := by
  rw [← utf8ByteSize_ofList]
  rfl

end Text

/-- The bytes of a stretch are those of the text that it covers. -/
theorem Span.Covers.bytes {span : Span} {source : String} {before text after : List Char}
    (covers : span.Covers source before text after) :
    source.toUTF8.extract span.offset (span.offset + span.length) =
      (String.ofList text).toUTF8 := by
  have parts : source = String.ofList before ++ (String.ofList text ++ String.ofList after) := by
    rw [← String.toList_inj, covers.split]
    simp
  have bytes : source.toUTF8 = (String.ofList before).toUTF8 ++
      ((String.ofList text).toUTF8 ++ (String.ofList after).toUTF8) := by
    rw [parts]
    simp
  rw [bytes, covers.offset, covers.length, ← Text.size_toUTF8_ofList before,
    ← Text.size_toUTF8_ofList text]
  exact (ByteArray.extract_append_size_add (i := 0)).trans (ByteArray.extract_append_eq_left rfl)

namespace Source

/-! ### Lines -/

/-- A line of a source between what stands before it and after it: its body, then the carriage
returns and the line feed that end it. Only the last line can do without a line feed. -/
structure IsLine (source earlier body ending later : List Char) : Prop where
  split : source = earlier ++ (body ++ (ending ++ later))
  begins : ∀ c ∈ earlier.getLast?, c = '\n'
  oneLine : '\n' ∉ body
  stops : ∀ c ∈ body.getLast?, c ≠ '\r'
  ends : ∃ returns, ending = List.replicate returns '\r' ++ ['\n'] ∨
    ending = List.replicate returns '\r' ∧ later = []

variable {line : List Char}

/-- What is dropped at the end of a line are carriage returns. -/
theorem exists_returns (oneLine : '\n' ∉ line) : ∃ returns,
    line = Text.dropEndWhile isLineEnd line ++ List.replicate returns '\r' := by
  obtain ⟨ends, split, lineEnds⟩ := Text.exists_dropEndWhile_append isLineEnd line
  refine ⟨ends.length, ?_⟩
  rw [← List.eq_replicate_of_mem (a := '\r') (l := ends)]
  · exact split
  · intro c member
    have isEnd := lineEnds c member
    rw [isLineEnd, Bool.or_eq_true, beq_iff_eq, beq_iff_eq] at isEnd
    refine isEnd.resolve_left fun feed => oneLine ?_
    rw [split, ← feed]
    exact List.mem_append_right _ member

theorem ne_return_of_getLast? {c : Char}
    (last : c ∈ (Text.dropEndWhile isLineEnd line).getLast?) : c ≠ '\r' := by
  rintro rfl
  cases Text.not_dropped_of_mem_getLast? isLineEnd line _ last

theorem not_mem_dropEndWhile (oneLine : '\n' ∉ line) :
    '\n' ∉ Text.dropEndWhile isLineEnd line :=
  fun member => oneLine ((List.rdropWhile_prefix isLineEnd line).subset member)

/-- A text that is not empty begins with a line. -/
theorem exists_isLine_append {earlier text : List Char}
    (begins : ∀ c ∈ earlier.getLast?, c = '\n') (nonempty : text ≠ []) :
    ∃ body ending later, text = body ++ (ending ++ later) ∧ body ++ ending ≠ [] ∧
      IsLine (earlier ++ text) earlier body ending later := by
  by_cases feed : '\n' ∈ text
  · obtain ⟨line, rest, rfl, oneLine⟩ := List.eq_append_cons_of_mem feed
    obtain ⟨returns, split⟩ := exists_returns oneLine
    have whole : line ++ '\n' :: rest = Text.dropEndWhile isLineEnd line ++
        ((List.replicate returns '\r' ++ ['\n']) ++ rest) := by
      conv_lhs => rw [split]
      simp
    exact ⟨_, _, rest, whole, by simp, congrArg _ whole, begins, not_mem_dropEndWhile oneLine,
      fun _ => ne_return_of_getLast?, returns, .inl rfl⟩
  · obtain ⟨returns, split⟩ := exists_returns feed
    have whole : text = Text.dropEndWhile isLineEnd text ++
        (List.replicate returns '\r' ++ []) := by rwa [List.append_nil]
    exact ⟨_, _, [], whole, split ▸ nonempty, congrArg _ whole, begins, not_mem_dropEndWhile feed,
      fun _ => ne_return_of_getLast?, returns, .inr ⟨rfl, rfl⟩⟩

namespace IsLine

variable {source earlier body ending later : List Char}
  (isLine : IsLine source earlier body ending later)

include isLine

/-- A line is the first piece of the text that it begins. -/
theorem lines_eq (nonempty : body ++ ending ≠ []) :
    Text.lines (body ++ (ending ++ later)) = (body ++ ending) :: Text.lines later := by
  obtain ⟨returns, rfl | ⟨rfl, rfl⟩⟩ := isLine.ends
  all_goals
    have oneLine : '\n' ∉ body ++ List.replicate returns '\r' := by
      simp [isLine.oneLine, List.mem_replicate]
  · have regrouped : body ++ ((List.replicate returns '\r' ++ ['\n']) ++ later) =
        (body ++ List.replicate returns '\r') ++ '\n' :: later := by simp
    rw [regrouped, Text.lines_append_feed oneLine, List.append_assoc]
  · rw [List.append_nil, Text.lines_of_oneLine oneLine nonempty]
    rfl

/-- The characters that end a line are those that are dropped at its end. -/
theorem dropEndWhile_eq : Text.dropEndWhile isLineEnd (body ++ ending) = body := by
  refine Text.dropEndWhile_append (fun c last => ?_) fun c member => ?_
  · have noFeed : c ≠ '\n' := fun feed => isLine.oneLine (feed ▸ List.mem_of_getLast? last)
    simp [isLineEnd, noFeed, isLine.stops c last]
  · obtain ⟨returns, rfl | ⟨rfl, -⟩⟩ := isLine.ends
    · rcases List.mem_append.mp member with inReturns | feed
      · rw [List.eq_of_mem_replicate inReturns]
        rfl
      · rw [List.mem_singleton.mp feed]
        rfl
    · rw [List.eq_of_mem_replicate member]
      rfl

/-- Another line begins after a line feed, which is the only one of the line before it. -/
theorem next (more : later ≠ []) : (∀ c ∈ (earlier ++ (body ++ ending)).getLast?, c = '\n') ∧
    (earlier ++ (body ++ ending)).count '\n' = earlier.count '\n' + 1 := by
  obtain ⟨returns, rfl | ⟨rfl, rfl⟩⟩ := isLine.ends
  · refine ⟨by simp, ?_⟩
    simp [List.count_eq_zero_of_not_mem isLine.oneLine, List.count_replicate]
  · exact absurd rfl more

end IsLine

/-! ### Tokens -/

/-- A token stands in a text that starts at byte `offset`, after as many bytes as its own offset
tells. -/
def Stands (offset : Nat) (text : List Char) (token : Token) : Prop :=
  ∃ lead rest, text = lead ++ (token.text.toList ++ rest) ∧
    token.offset = offset + Text.utf8Length lead

variable {offset : Nat} {text : List Char} {token : Token}

theorem stands_of_mem_tokensOfRuns {runs : List (List Char)}
    (member : token ∈ tokensOfRuns offset runs) : Stands offset runs.flatten token := by
  induction runs generalizing offset with
  | nil => cases member
  | cons run runs ih =>
    have later (member : token ∈ tokensOfRuns (offset + Text.utf8Length run) runs) :
        Stands offset (run ++ runs.flatten) token := by
      obtain ⟨lead, rest, split, place⟩ := ih member
      refine ⟨run ++ lead, rest, ?_, ?_⟩
      · rw [split, List.append_assoc]
      · rw [place, Text.utf8Length_append, Nat.add_assoc]
    unfold tokensOfRuns at member
    rw [List.flatten_cons]
    split at member
    · exact later member
    · rcases List.mem_cons.mp member with rfl | member
      · exact ⟨[], runs.flatten, by rw [List.nil_append, String.toList_ofList], rfl⟩
      · exact later member

theorem Stands.append (stands : Stands offset text token) (after : List Char) :
    Stands offset (text ++ after) token := by
  obtain ⟨lead, rest, rfl, place⟩ := stands
  exact ⟨lead, rest ++ after, by simp, place⟩

theorem stands_code (stands : Stands offset (code text) token) : Stands offset text token := by
  have whole : code text ++ text.dropWhile (· != '#') = text := List.takeWhile_append_dropWhile
  rw [← whole]
  exact stands.append _

/-- A text that starts where the leading blanks end stands there. -/
theorem stands_of_prefix_trim {word : List Char} (leads : word <+: Text.trim text) :
    Stands offset text
      ⟨String.ofList word, offset + Text.utf8Length (text.takeWhile Text.isBlank)⟩ := by
  have trimmed : Text.trim text <+: text.dropWhile Text.isBlank := List.rdropWhile_prefix _ _
  obtain ⟨rest, split⟩ := leads.trans trimmed
  refine ⟨text.takeWhile Text.isBlank, rest, ?_, rfl⟩
  rw [String.toList_ofList, split, List.takeWhile_append_dropWhile]

/-- The tokens that the lexer finds stand in their line, before its comment. -/
theorem stands_code_of_mem_tokens (member : token ∈ (classify offset text).tokens) :
    Stands offset (code text) token := by
  unfold classify at member
  simp only at member
  split at member
  · split at member <;> cases member
  · split at member
    · obtain rfl := List.mem_singleton.mp member
      refine stands_of_prefix_trim ((List.rdropWhile_prefix _ _).trans (List.dropLast_prefix _))
    · split at member
      · next mnemonic operands found =>
        have inTokens : token ∈ tokens offset (code text) := found ▸ member
        have stands := stands_of_mem_tokensOfRuns inTokens
        rwa [List.flatten_splitBy] at stands
      · obtain rfl := List.mem_singleton.mp member
        exact stands_of_prefix_trim List.prefix_rfl

/-- **The tokens that the lexer finds stand in their line.** -/
theorem stands_of_mem_tokens (member : token ∈ (classify offset text).tokens) :
    Stands offset text token :=
  stands_code (stands_code_of_mem_tokens member)

end Source

end Asm16
