/-
**Where a line of text may end.**

* `LineClass` — how a character behaves at the end of a line.
* `mayPart` — whether a line may end between characters of two classes.
* `segments` — a text cut wherever a line may end.
-/

namespace Asm16.Text

/-- How a character behaves at the end of a line. A `sign` stands before a number or after it, a
`mark` within one or at the end of a sentence. -/
inductive LineClass
  | space
  | feed
  | opening
  | closing
  | bracket
  | quotation
  | glue
  | exclamation
  | mark
  | slash
  | hyphen
  | gap
  | digit
  | sign
  | percent
  | letter
  | ideograph
  | accent
deriving DecidableEq, Repr

/-- The ranges, first and last code point, of the characters of East Asian scripts and of the
pictographs, each two columns wide. -/
def wideRanges : List (Nat × Nat) :=
  [(0x1100, 0x115F), (0x2E80, 0x303E), (0x3041, 0x33FF), (0x3400, 0x4DBF), (0x4E00, 0x9FFF),
    (0xA000, 0xA4CF), (0xAC00, 0xD7A3), (0xF900, 0xFAFF), (0xFE30, 0xFE6F), (0xFF00, 0xFF60),
    (0xFFE0, 0xFFE6), (0x1F300, 0x1F64F), (0x1F680, 0x1F6FF), (0x1F900, 0x1F9FF),
    (0x20000, 0x3FFFD)]

/-- Whether a character is two columns wide. -/
def isWide (c : Char) : Bool :=
  wideRanges.any fun (first, last) => first ≤ c.toNat && c.toNat ≤ last

/-- The ranges of the characters without a width of their own: controls and combining marks. -/
def accentRanges : List (Nat × Nat) :=
  [(0x00, 0x1F), (0x7F, 0x9F), (0x300, 0x36F), (0x200B, 0x200F), (0x2028, 0x202E),
    (0x2060, 0x2064), (0x20D0, 0x20F0), (0xFE00, 0xFE0F), (0xFEFF, 0xFEFF)]

/-- Whether a character has no width of its own. -/
def isAccent (c : Char) : Bool :=
  accentRanges.any fun (first, last) => first ≤ c.toNat && c.toNat ≤ last

/-- The number of columns that a character takes on a terminal. -/
def columns (c : Char) : Nat :=
  if isAccent c then 0 else if isWide c then 2 else 1

namespace LineClass

/-- The class of a character. -/
def ofChar (c : Char) : LineClass :=
  if c = ' ' then space
  else if "\n\x0b\x0c\r\u0085\u200b\u2028\u2029".toList.contains c then feed
  else if "([\x7b".toList.contains c then opening
  else if "\x7d\u3001\u3002".toList.contains c then closing
  else if ")]".toList.contains c then bracket
  else if "\"'\u00ab\u00bb\u2018\u2019\u201c\u201d".toList.contains c then quotation
  else if "\u00a0\u2007\u2011\u202f\u2060\ufeff".toList.contains c then glue
  else if "!?".toList.contains c then exclamation
  else if ",.:;".toList.contains c then mark
  else if c = '/' then slash
  else if c = '-' then hyphen
  else if "\t|\u00ad\u1680\u2010\u2012\u2013\u205f\u3000".toList.contains c then gap
  else if '\u2000' ≤ c ∧ c ≤ '\u200a' then gap
  else if c.isDigit then digit
  else if "$+\\".toList.contains c then sign
  else if c = '%' then percent
  else if isAccent c then accent
  else if isWide c then ideograph
  else letter

/-- Whether characters of two classes that stand side by side belong together: the letters and
digits of a word, a number with its signs, a word with the brackets beside it. -/
def areJoined : LineClass → LineClass → Bool
  | letter, letter | letter, digit | digit, letter | digit, digit => true
  | sign, letter | percent, letter | letter, sign | letter, percent => true
  | sign, digit | percent, digit | digit, sign | digit, percent => true
  | sign, opening | percent, opening | letter, opening | digit, opening => true
  | closing, sign | closing, percent | bracket, sign | bracket, percent => true
  | bracket, letter | bracket, digit => true
  | mark, letter | mark, digit | slash, digit | hyphen, digit => true
  | sign, ideograph | ideograph, percent => true
  | _, _ => false

/-- Whether a line may end between characters of two classes, `apart` if there are spaces between
them. Some characters never start a line, not even after spaces, and others never end one. -/
def mayPart (before : LineClass) (apart : Bool) (next : LineClass) : Bool :=
  match before, next with
  | _, space | _, feed => false
  | feed, _ => true
  | _, closing | _, bracket | _, exclamation | _, mark | _, slash => false
  | opening, _ | quotation, opening => false
  | before, next =>
    if apart then true
    else
      match before, next with
      | glue, _ => false
      | gap, glue | hyphen, glue => true
      | _, glue | _, quotation | quotation, _ | _, gap | _, hyphen => false
      | _, _ => !areJoined before next

end LineClass

/-- What is known of a text up to some place in it: the class of the last character that is no
space, whether spaces follow it, and the last two characters. -/
structure LinePlace where
  before : LineClass
  apart : Bool
  last : Char
  secondLast : Option Char

namespace LinePlace

/-- The place after the first character of a text. -/
def start (c : Char) : LinePlace where
  before := .ofChar c
  apart := c == ' '
  last := c
  secondLast := none

/-- Letters and digits, on both sides of a hyphen, make it one inside a word. -/
def isWordCharacter (c : Char) : Bool :=
  c.isAlphanum || 0xC0 ≤ c.toNat

/-- Whether a line may end at a place before the given character. After a hyphen it may inside a
word only, and never at a hyphen that is not shown. -/
def mayEnd (place : LinePlace) (next : Char) : Bool :=
  if place.last = '-' then
    place.secondLast.any isWordCharacter && isWordCharacter next
  else if place.last = '\u00ad' then false
  else
    match LineClass.ofChar next with
    | .accent => place.apart
    | following => place.before.mayPart place.apart following

/-- The place after one more character. An accent belongs to the character before it. -/
def advance (place : LinePlace) (next : Char) : LinePlace where
  before :=
    match LineClass.ofChar next with
    | .space => if place.before = .feed then .space else place.before
    | .accent => if place.apart then .letter else place.before
    | following => following
  apart := next == ' '
  last := next
  secondLast := some place.last

end LinePlace

/-- The pieces of a text from a place on, the first of them after what it has so far. -/
def segmentsFrom (place : LinePlace) (piece : List Char) : List Char → List (List Char)
  | [] => [piece.reverse]
  | c :: rest =>
    if place.mayEnd c then piece.reverse :: segmentsFrom (place.advance c) [c] rest
    else segmentsFrom (place.advance c) (c :: piece) rest

/-- A text cut wherever a line may end. -/
def segments : List Char → List (List Char)
  | [] => []
  | c :: rest => segmentsFrom (.start c) [c] rest

end Asm16.Text
