/-
**Text on a terminal.**

* `padLeft`, `padRight` — a text filled with spaces up to a number of characters.
* `Style.paint` — a text between the escape sequences of a style.
* `Form` — how much decoration an output has: none at all, or all of it with or without colour.
* `statusLine` — a line of progress: a coloured word, aligned to the right, and what it is about.
-/

namespace Asm16.Terminal

/-- The text with spaces before it, at least `width` characters in all. -/
def padLeft (width : Nat) (text : String) : String :=
  String.ofList (text.toList.leftpad width ' ')

/-- The text with spaces after it, at least `width` characters in all. -/
def padRight (width : Nat) (text : String) : String :=
  String.ofList (text.toList.rightpad width ' ')

/-- A way to show a text on a terminal. -/
inductive Style
  | dimmed
  | bold
  | italic
  | red
  | green
  | blue
  | cyan
deriving DecidableEq, Repr

namespace Style

/-- The number that selects a style in an escape sequence. -/
def code : Style → String
  | dimmed => "2"
  | bold => "1"
  | italic => "3"
  | red => "31"
  | green => "32"
  | blue => "34"
  | cyan => "36"

/-- The text in a style: after the sequence that selects it, before the one that ends it. -/
def paint (style : Style) (text : String) : String :=
  "\x1b[" ++ style.code ++ "m" ++ text ++ "\x1b[0m"

/-- The text in a style if colour is wanted, or else as it is. -/
def paintIf (style : Style) (colour : Bool) (text : String) : String :=
  if colour then style.paint text else text

end Style

/-- How an output is decorated: not at all, or in full with or without colour. -/
inductive Form
  | minimal
  | full (colour : Bool)
deriving DecidableEq, Repr

/-- Whether an output may use colour. -/
def Form.coloured : Form → Bool
  | minimal => false
  | full colour => colour

/-- A line of progress. -/
def statusLine (colour : Bool) (style : Style) (word about : String) : String :=
  style.paintIf colour (padLeft 12 word) ++ " " ++ about ++ "\n"

end Asm16.Terminal
