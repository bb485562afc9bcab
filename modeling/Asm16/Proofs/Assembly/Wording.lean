/-
**What lines say, wherever they stand.**

* `Wording` — what a line holds without the places of its tokens; `Source.wording` is what a text
  says as a line, and by `Source.wording_classify` it says that at any place.
* `Source.wording_append` — characters that end lines say nothing.
* `Source.map_worded_lines` — the lines of a source say what its pieces say, one number each.
* `Source.map_worded_withReturns`, `Source.map_worded_push_feed` — lines say the same with a
  carriage return before every line feed, and with a line feed after the last of them.
-/

import Asm16.Proofs.Assembly.Lexing

namespace Asm16

/-- What a line holds, the places of its tokens aside. -/
inductive Wording
  | blank
  | comment
  | label (name : String)
  | instruction (mnemonic : String) (operands : List String)
deriving DecidableEq, Repr

/-- What a line says with its content. -/
def Line.Content.wording : Line.Content → Wording
  | .blank => .blank
  | .comment => .comment
  | .label name => .label name.text
  | .instruction mnemonic operands => .instruction mnemonic.text (operands.map Token.text)

/-- What a line says, with its number. -/
def Line.worded (line : Line) : Wording × Nat :=
  (line.content.wording, line.number)

namespace Source

/-- What a text says as a line. -/
def wording (text : List Char) : Wording :=
  (classify 0 text).wording

/-! ### One line -/

section Line

variable {text other : List Char}

/-- What a line says depends on its words, on what is left of it without blanks and its comment, and
on whether there is a comment. -/
theorem wording_classify_congr (offset place : Nat)
    (trimmed : Text.trim (code text) = Text.trim (code other))
    (found : words (code text) = words (code other))
    (remark : (code text).length < text.length ↔ (code other).length < other.length) :
    (classify offset text).wording = (classify place other).wording := by
  unfold classify
  simp only [trimmed, remark]
  split
  · split <;> rfl
  · split
    · rfl
    · have texts : (tokens offset (code text)).map Token.text =
          (tokens place (code other)).map Token.text := by
        rw [map_text_tokens, map_text_tokens, found]
      cases first : tokens offset (code text) with
      | nil =>
        rw [first, List.map_nil, eq_comm, List.map_eq_nil_iff] at texts
        rw [texts]
        rfl
      | cons mnemonic operands =>
        rw [first, List.map_cons, eq_comm, List.map_eq_cons_iff] at texts
        obtain ⟨mnemonic', operands', second, same, rest⟩ := texts
        rw [second]
        exact (congrArg₂ Wording.instruction same rest).symm

/-- A line says the same at any place. -/
theorem wording_classify (offset : Nat) (text : List Char) :
    (classify offset text).wording = wording text :=
  wording_classify_congr offset 0 rfl rfl Iff.rfl

theorem isBlank_of_isLineEnd {c : Char} (lineEnd : isLineEnd c = true) :
    Text.isBlank c = true := by
  rw [isLineEnd, Bool.or_eq_true, beq_iff_eq, beq_iff_eq] at lineEnd
  rcases lineEnd with rfl | rfl <;> rfl

theorem length_code_lt_iff : (code text).length < text.length ↔ '#' ∈ text := by
  constructor
  · intro shorter
    by_contra noHash
    rw [code_of_no_hash noHash] at shorter
    exact Nat.lt_irrefl _ shorter
  · intro hash
    obtain ⟨before, remark, rfl, noHash⟩ := List.eq_append_cons_of_mem hash
    rw [code_append_hash noHash, List.length_append, List.length_cons]
    omega

/-- A character that ends a line says nothing. -/
theorem wording_concat {c : Char} (lineEnd : isLineEnd c = true) (text : List Char) :
    wording (text ++ [c]) = wording text := by
  have blank := isBlank_of_isLineEnd lineEnd
  have notHash : '#' ≠ c := by
    rintro rfl
    cases lineEnd
  have remark : '#' ∈ text ++ [c] ↔ '#' ∈ text := by simp [notHash]
  rw [← length_code_lt_iff, ← length_code_lt_iff] at remark
  by_cases hash : '#' ∈ text
  · have same : code (text ++ [c]) = code text := by
      obtain ⟨before, remark, rfl, noHash⟩ := List.eq_append_cons_of_mem hash
      rw [List.append_assoc, List.cons_append, code_append_hash noHash, code_append_hash noHash]
    exact wording_classify_congr 0 0 (by rw [same]) (by rw [same]) remark
  · have longer : code (text ++ [c]) = text ++ [c] := code_of_no_hash (by simp [hash, notHash])
    refine wording_classify_congr 0 0 ?_ ?_ remark
    · rw [longer, code_of_no_hash hash, Text.trim_append_blank blank]
    · rw [longer, code_of_no_hash hash,
        words_append_separators fun next member => List.mem_singleton.mp member ▸
          isSeparator_of_isBlank blank]

/-- Characters that end a line say nothing. -/
theorem wording_append {ends : List Char} (lineEnds : ∀ c ∈ ends, isLineEnd c = true)
    (text : List Char) : wording (text ++ ends) = wording text := by
  induction ends generalizing text with
  | nil => rw [List.append_nil]
  | cons c ends ih =>
    rw [List.append_cons, ih fun next member => lineEnds next (by simp [member]),
      wording_concat (lineEnds c (by simp))]

theorem wording_dropEndWhile (text : List Char) :
    wording (Text.dropEndWhile isLineEnd text) = wording text := by
  obtain ⟨ends, split, lineEnds⟩ := Text.exists_dropEndWhile_append isLineEnd text
  conv_rhs => rw [split]
  exact (wording_append lineEnds _).symm

end Line

/-! ### Lines of a source -/

theorem map_worded_linesOfPieces (number offset : Nat) (pieces : List (List Char)) :
    (linesOfPieces number offset pieces).map Line.worded =
      (pieces.map wording).zipIdx number := by
  induction pieces generalizing number offset with
  | nil => rfl
  | cons piece pieces ih =>
    rw [linesOfPieces, List.map_cons, ih, List.map_cons, List.zipIdx_cons, Line.worded,
      wording_classify, wording_dropEndWhile]

/-- **The lines of a source say what its pieces say**, with one number each. -/
theorem map_worded_lines (source : String) : (lines source).map Line.worded =
    ((Text.lines source.toList).map wording).zipIdx 1 :=
  map_worded_linesOfPieces 1 0 _

/-- A text with a carriage return before every line feed. -/
def withReturns (text : List Char) : List Char :=
  text.flatMap fun c => if c = '\n' then ['\r', '\n'] else [c]

theorem withReturns_of_oneLine {line : List Char} (oneLine : '\n' ∉ line) :
    withReturns line = line := by
  induction line with
  | nil => rfl
  | cons c line ih =>
    rw [List.mem_cons, not_or] at oneLine
    rw [withReturns, List.flatMap_cons, if_neg (Ne.symm oneLine.1)]
    exact congrArg (c :: ·) (ih oneLine.2)

theorem withReturns_append_feed {line : List Char} (oneLine : '\n' ∉ line) (rest : List Char) :
    withReturns (line ++ '\n' :: rest) = (line ++ ['\r']) ++ '\n' :: withReturns rest := by
  have parts : withReturns (line ++ '\n' :: rest) =
      withReturns line ++ '\r' :: '\n' :: withReturns rest := List.flatMap_append
  rw [parts, withReturns_of_oneLine oneLine, List.append_assoc]
  rfl

theorem map_wording_withReturns (text : List Char) :
    (Text.lines (withReturns text)).map wording = (Text.lines text).map wording := by
  induction text using Text.lines_induction with
  | nil => rfl
  | last line _ oneLine => rw [withReturns_of_oneLine oneLine]
  | feed line rest oneLine ih =>
    rw [withReturns_append_feed oneLine, Text.lines_append_feed (by simp [oneLine]),
      Text.lines_append_feed oneLine, List.map_cons, List.map_cons, ih, wording_concat rfl,
      wording_concat rfl, wording_concat rfl]

theorem map_wording_concat_feed {text : List Char} (nonempty : text ≠ [])
    (unended : ∀ c ∈ text.getLast?, c ≠ '\n') :
    (Text.lines (text ++ ['\n'])).map wording = (Text.lines text).map wording := by
  induction text using Text.lines_induction with
  | nil => exact absurd rfl nonempty
  | last line nonempty oneLine =>
    rw [Text.lines_append_feed oneLine, Text.lines_of_oneLine oneLine nonempty, List.map_cons,
      wording_concat rfl]
    rfl
  | feed line rest oneLine ih =>
    have nonempty : rest ≠ [] := by
      rintro rfl
      exact unended '\n' (by simp) rfl
    rw [List.append_assoc, List.cons_append, Text.lines_append_feed oneLine,
      Text.lines_append_feed oneLine, List.map_cons, List.map_cons, ih nonempty]
    intro c last
    refine unended c ?_
    rw [List.getLast?_append_of_ne_nil _ (List.cons_ne_nil _ _),
      List.getLast?_cons_of_ne_nil nonempty]
    exact last

/-- Lines say the same with a carriage return before every line feed. -/
theorem map_worded_withReturns (source : String) :
    (lines (String.ofList (withReturns source.toList))).map Line.worded =
      (lines source).map Line.worded := by
  rw [map_worded_lines, map_worded_lines, String.toList_ofList, map_wording_withReturns]

/-- Lines say the same with a line feed after the last of them. -/
theorem map_worded_push_feed {source : String} (nonempty : source ≠ "")
    (unended : ∀ c ∈ source.toList.getLast?, c ≠ '\n') :
    (lines (source.push '\n')).map Line.worded = (lines source).map Line.worded := by
  have some : source.toList ≠ [] := fun none => nonempty (String.toList_eq_nil_iff.mp none)
  rw [map_worded_lines, map_worded_lines, String.toList_push, map_wording_concat_feed some unended]

end Source

end Asm16
