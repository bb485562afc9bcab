/-
**Numerals.**

* `isDecimal`, `decimalValue` — decimal numerals, leading zeros allowed, and what they denote.
* `unsigned?` — a bounded natural number with an optional plus sign.
* `binary`, `hexadecimal` — numerals of at least a given width, filled with zeros on the left.
-/

namespace Asm16.Numeral

/-- A decimal numeral is one or more of the digits `0` to `9`. -/
def isDecimal (text : List Char) : Bool :=
  !text.isEmpty && text.all Char.isDigit

/-- The number a decimal numeral denotes. -/
def decimalValue (text : List Char) : Nat :=
  Nat.ofDigitChars 10 text 0

/-- The number, at most `largest`, denoted by a decimal numeral after an optional plus sign. -/
def unsigned? (largest : Nat) (text : List Char) : Option Nat :=
  let digits := match text with
    | '+' :: rest => rest
    | _ => text
  if isDecimal digits && decimalValue digits ≤ largest then some (decimalValue digits) else none

/-- The largest number of 64 bits. -/
def largest64 : Nat := 18446744073709551615

/-- The numeral of `value` in `base`, filled with zeros on the left up to `width` digits. -/
def padded (base width value : Nat) : List Char :=
  (Nat.toDigits base value).leftpad width '0'

/-- A binary numeral of at least `width` digits. -/
def binary (width value : Nat) : String :=
  String.ofList (padded 2 width value)

/-- A lower-case hexadecimal numeral of at least `width` digits. -/
def hexadecimal (width value : Nat) : String :=
  String.ofList (padded 16 width value)

/-- The digits of a binary numeral are zeros and ones. -/
def isBit (c : Char) : Bool := c == '0' || c == '1'

/-- The number a binary numeral denotes, most significant digit first. -/
def binaryValue (text : List Char) : Nat :=
  Nat.ofDigitChars 2 text 0

end Asm16.Numeral
