/-
**Lines of assembly source.**

* `Span`, `Token` — a stretch of the source in bytes, and a word of it with its place.
* `Line` — a numbered line with its stretch and its content: nothing, a comment, a label or an
  instruction.
* `Source.tokens` — the words of a line, which are its maximal runs without separators.
* `Source.lines` — the lines of a source.
-/

import Asm16.Text.Blank
import Asm16.Text.Lines

namespace Asm16

/-- A stretch of a source: its first byte and its number of bytes. -/
structure Span where
  offset : Nat
  length : Nat
deriving DecidableEq, Repr

/-- A word of a source and the byte it starts at. -/
structure Token where
  text : String
  offset : Nat
deriving DecidableEq, Repr

/-- The stretch of the source that a token takes. -/
def Token.span (token : Token) : Span :=
  ⟨token.offset, token.text.utf8ByteSize⟩

/-- What a line holds. -/
inductive Line.Content
  | blank
  | comment
  | label (name : Token)
  | instruction (mnemonic : Token) (operands : List Token)
deriving DecidableEq, Repr

/-- A line of a source, counted from one; its span leaves out the characters that end the line. -/
structure Line where
  number : Nat
  span : Span
  content : Line.Content
deriving DecidableEq, Repr

/-- Whether a line holds an instruction. -/
def Line.isInstruction (line : Line) : Bool :=
  match line.content with
  | .instruction .. => true
  | _ => false

namespace Source

/-- Blanks and commas part the words of a line. -/
def isSeparator (c : Char) : Bool :=
  Text.isBlank c || c == ','

/-- The words among the runs of a line that starts at byte `offset`, leaving out the runs of
separators. -/
def tokensOfRuns (offset : Nat) : List (List Char) → List Token
  | [] => []
  | run :: rest =>
    let others := tokensOfRuns (offset + Text.utf8Length run) rest
    if run.all isSeparator then others else ⟨String.ofList run, offset⟩ :: others

/-- The words of a text that starts at byte `offset`: its maximal runs without separators. -/
def tokens (offset : Nat) (text : List Char) : List Token :=
  tokensOfRuns offset (text.splitBy fun c next => isSeparator c == isSeparator next)

/-- The part of a line before its comment. -/
def code (text : List Char) : List Char :=
  text.takeWhile (· != '#')

/-- What a line that starts at byte `offset` holds. A line that ends in a colon, its comment and
blanks left out, declares a label; a line of commas only is an instruction without a name. -/
def classify (offset : Nat) (text : List Char) : Line.Content :=
  let code := code text
  let trimmed := Text.trim code
  let start := offset + Text.utf8Length (code.takeWhile Text.isBlank)
  if trimmed.isEmpty then
    if code.length < text.length then .comment else .blank
  else if trimmed.getLast? = some ':' then
    .label ⟨String.ofList (Text.trimEnd trimmed.dropLast), start⟩
  else
    match tokens offset code with
    | mnemonic :: operands => .instruction mnemonic operands
    | [] => .instruction ⟨String.ofList trimmed, start⟩ []

/-- Line feeds and carriage returns end a line. -/
def isLineEnd (c : Char) : Bool :=
  c == '\n' || c == '\r'

/-- The numbered lines of consecutive pieces of a source, the first piece being line `number` and
starting at byte `offset`. -/
def linesOfPieces (number offset : Nat) : List (List Char) → List Line
  | [] => []
  | piece :: rest =>
    let text := Text.dropEndWhile isLineEnd piece
    { number
      span := ⟨offset, Text.utf8Length text⟩
      content := classify offset text } ::
      linesOfPieces (number + 1) (offset + Text.utf8Length piece) rest

/-- The lines of a source. -/
def lines (source : String) : List Line :=
  linesOfPieces 1 0 (Text.lines source.toList)

end Source

end Asm16
