/-
**Text in lines of limited width.**

* `Fragment` — a part of a text that is kept on one line, with the spaces after it.
* `fragments` — the fragments of a text, none of them wider than a line.
* `wrap` — the lines of a text, each filled before the next one is begun.
-/

import Asm16.Text.Blank
import Asm16.Shell.LineBreak

namespace Asm16.Terminal

/-- The number of columns of a text. -/
def width (text : List Char) : Nat :=
  text.foldl (fun width c => width + Text.columns c) 0

/-- A part of a text that is kept on one line, and the spaces after it. -/
structure Fragment where
  word : List Char
  spaces : List Char

namespace Fragment

/-- The fragment of a text, its spaces being those at the end. -/
def ofText (text : List Char) : Fragment where
  word := Text.dropEndWhile (· == ' ') text
  spaces := (text.reverse.takeWhile (· == ' ')).reverse

/-- A fragment as it stands within a line. -/
def text (fragment : Fragment) : List Char :=
  fragment.word ++ fragment.spaces

end Fragment

/-- The pieces of a word of at most `limit` columns each, the first one after what it has so far. -/
def piecesFrom (limit : Nat) (piece : List Char) (taken : Nat) : List Char → List (List Char)
  | [] => [piece.reverse]
  | c :: rest =>
    if 0 < taken ∧ limit < taken + Text.columns c then
      piece.reverse :: piecesFrom limit [c] (Text.columns c) rest
    else piecesFrom limit (c :: piece) (taken + Text.columns c) rest

/-- The fragment itself, or its pieces if it is wider than a line. -/
def splitWide (limit : Nat) (fragment : Fragment) : List Fragment :=
  if width fragment.word ≤ limit then [fragment]
  else
    let pieces := piecesFrom limit [] 0 fragment.word
    pieces.dropLast.map (⟨·, []⟩) ++ [⟨pieces.getLastD [], fragment.spaces⟩]

/-- The fragments of a text for lines of at most `limit` columns. -/
def fragments (limit : Nat) (text : List Char) : List Fragment :=
  (Text.segments text).flatMap fun segment => splitWide limit (.ofText segment)

/-- The lines of fragments, the first line having `line` so far. -/
def fill (limit : Nat) (line : List Char) : List Fragment → List (List Char)
  | [] => [line]
  | fragment :: rest =>
    if line ≠ [] ∧ limit < width line + width fragment.word then
      line :: fill limit fragment.text rest
    else fill limit (line ++ fragment.text) rest

/-- The lines, of at most `limit` columns without the spaces at their ends, of a text without line
feeds. -/
def wrap (limit : Nat) (text : List Char) : List (List Char) :=
  (fill limit [] (fragments limit text)).map (Text.dropEndWhile (· == ' '))

end Asm16.Terminal
