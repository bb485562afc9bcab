/-
**Reading bytes as UTF-8 text.**

* `Utf8.decode?` — the text that the bytes encode, if they are valid UTF-8.
* `Utf8.Reader` — how far a reader has got into a character of several bytes.
* `Utf8.decodeLossy` — the text of arbitrary bytes: every longest run of bytes that begins a
  character and does not finish one becomes a single replacement character.
-/

namespace Asm16.Utf8

/-- The text that the bytes encode, if they are valid UTF-8. -/
def decode? (bytes : ByteArray) : Option String :=
  String.fromUTF8? bytes

/-- The state of a reader: between two characters, or inside one of several bytes, with the bits
read so far, the number of bytes after the next one and the range the next byte must lie in. -/
inductive Reader
  | between
  | inside (bits following lowest highest : Nat)

/-- The character that stands for bytes which encode none. -/
def replacement : Char := '\uFFFD'

namespace Reader

/-- The characters finished by a byte between two characters, and the state after it. The range
of the second byte excludes overlong forms, surrogates and numbers above the last code point. -/
def start (byte : Nat) : List Char × Reader :=
  if byte < 0x80 then ([Char.ofNat byte], between)
  else if byte < 0xC2 then ([replacement], between)
  else if byte < 0xE0 then ([], inside (byte - 0xC0) 0 0x80 0xBF)
  else if byte = 0xE0 then ([], inside 0 1 0xA0 0xBF)
  else if byte = 0xED then ([], inside 0xD 1 0x80 0x9F)
  else if byte < 0xF0 then ([], inside (byte - 0xE0) 1 0x80 0xBF)
  else if byte = 0xF0 then ([], inside 0 2 0x90 0xBF)
  else if byte < 0xF4 then ([], inside (byte - 0xF0) 2 0x80 0xBF)
  else if byte = 0xF4 then ([], inside 4 2 0x80 0x8F)
  else ([replacement], between)

/-- The characters finished by one more byte, and the state after it. -/
def feed (byte : Nat) : Reader → List Char × Reader
  | between => start byte
  | inside bits following lowest highest =>
    if lowest ≤ byte ∧ byte ≤ highest then
      let bits := bits * 64 + (byte - 0x80)
      match following with
      | 0 => ([Char.ofNat bits], between)
      | following + 1 => ([], inside bits following 0x80 0xBF)
    else
      let next := start byte
      (replacement :: next.1, next.2)

/-- The characters finished by the end of the bytes. -/
def finish : Reader → List Char
  | between => []
  | inside .. => [replacement]

/-- The characters of the bytes from the given state on. -/
def characters : Reader → List UInt8 → List Char
  | reader, [] => reader.finish
  | reader, byte :: rest =>
    let next := reader.feed byte.toNat
    next.1 ++ next.2.characters rest

end Reader

/-- The text of the bytes, with a replacement character wherever they are not valid UTF-8. -/
def decodeLossy (bytes : ByteArray) : String :=
  String.ofList (Reader.between.characters bytes.data.toList)

end Asm16.Utf8
