/-
**Encoded program files.**

The words of a program in the order of their addresses, in one of two forms:

* `Program.toText`, `Program.ofText` — a line of sixteen binary digits for each word; blank lines
  and blanks around the digits are skipped in reading.
* `Program.toBytes`, `Program.ofBytes` — two bytes for each word, the higher one first.
* `ProgramError` — why a file is not a program that fits in memory.
-/

import Asm16.Text.Blank
import Asm16.Text.Lines
import Asm16.Numeral
import Asm16.Word

namespace Asm16

/-- Why a file is not an encoded program. -/
inductive ProgramError
  | malformedLine (line : Nat) (text : String)
  | misaligned (bytes : Nat)
  | tooLarge (length : Nat)
deriving DecidableEq, Repr

/-- The words in which a file is refused. -/
def ProgramError.message : ProgramError → String
  | malformedLine line text => s!"line {line}: expected 16 binary digits, found `{text}`"
  | misaligned bytes =>
    s!"packed program is {bytes} bytes, not a whole number of 16-bit words"
  | tooLarge length => s!"program of {length} words does not fit in memory"

namespace Program

/-- The number of binary digits of a word. -/
def wordDigits : Nat := 16

/-- Refuses a program that does not fit in memory, which holds 4096 words. -/
def fitting (words : List Word) : Except ProgramError (List Word) :=
  if words.length ≤ 4096 then .ok words else .error (.tooLarge words.length)

/-! ### Lines of binary digits -/

/-- The program as text. -/
def toText (words : List Word) : String :=
  String.join (words.map fun word => Numeral.binary wordDigits word.toNat ++ "\n")

/-- Whether a line without its blanks is a word. -/
def isWordLine (text : List Char) : Bool :=
  text.length == wordDigits && text.all Numeral.isBit

/-- The words of consecutive lines without their blanks, the first being line `number`. -/
def wordsOfLines (number : Nat) : List (List Char) → Except ProgramError (List Word)
  | [] => .ok []
  | text :: rest =>
    if text.isEmpty then wordsOfLines (number + 1) rest
    else if isWordLine text then
      match wordsOfLines (number + 1) rest with
      | .ok words => .ok (UInt16.ofNat (Numeral.binaryValue text) :: words)
      | .error error => .error error
    else .error (.malformedLine number (String.ofList text))

/-- The program that a text encodes. -/
def ofText (text : String) : Except ProgramError (List Word) :=
  wordsOfLines 1 ((Text.lines text.toList).map Text.trim) >>= fitting

/-! ### Pairs of bytes -/

/-- The bytes of a word, the higher one first. -/
def wordBytes (word : Word) : List UInt8 :=
  [UInt8.ofNat (word.toNat / 256), UInt8.ofNat word.toNat]

/-- The program as bytes. -/
def toBytes (words : List Word) : ByteArray :=
  ⟨(words.flatMap wordBytes).toArray⟩

/-- The words of consecutive pairs of bytes; a last single byte is left out. -/
def wordsOfBytes : List UInt8 → List Word
  | high :: low :: rest => UInt16.ofNat (high.toNat * 256 + low.toNat) :: wordsOfBytes rest
  | _ => []

/-- The program that bytes encode. -/
def ofBytes (bytes : ByteArray) : Except ProgramError (List Word) :=
  if bytes.size % 2 = 0 then fitting (wordsOfBytes bytes.data.toList)
  else .error (.misaligned bytes.size)

end Program

end Asm16
