/-
**Assembling.**

* `Statement.instr` — the instruction of a statement, its operands resolved from left to right.
* `Outline.encode` — the words of an outline, in the order of its statements.
* `assemble` — the words and the labels of a source, or its first mistake. Every line is outlined
  before any statement is encoded.
-/

import Asm16.Assembly.Operand
import Asm16.Assembly.Outline
import Asm16.Instr.Codec

namespace Asm16

namespace Statement

/-- Reports a mistake at a token of the statement. -/
def blame {α : Type} (statement : Statement) (token : Token) :
    Except Mistake α → Except SourceError α
  | .ok result => .ok result
  | .error mistake => .error ⟨statement.line, token.span, mistake⟩

/-- The register that a token of the statement stands for. -/
def register (statement : Statement) (labels : LabelTable) (token : Token) :
    Except SourceError Register :=
  statement.blame token (Operand.expectRegister labels token.text)

/-- The value of at most `bits` bits that a token of the statement stands for. -/
def value (statement : Statement) (labels : LabelTable) (bits : Nat) (token : Token) :
    Except SourceError Nat :=
  statement.blame token (Operand.expectValue labels bits token.text)

/-- The mistake of having too many or too few operands, reported at the first one too many or
else at the mnemonic. -/
def operandCountError (statement : Statement) (opcode : Opcode) : SourceError where
  line := statement.line
  span := (statement.operands[opcode.arity]?.getD statement.mnemonic).span
  mistake := .wrongOperandCount opcode.mnemonic opcode.arity statement.operands.length

/-- The instruction that a statement with the given operation stands for. -/
def instrOf (statement : Statement) (labels : LabelTable) (opcode : Opcode) :
    Except SourceError Instr :=
  match opcode, statement.operands with
  | .load, [destination, number] => do
    let destination ← statement.register labels destination
    let number ← statement.value labels 8 number
    return .load destination (UInt8.ofNat number)
  | .store, [source, address] => do
    let source ← statement.register labels source
    let address ← statement.value labels 8 address
    return .store source (UInt8.ofNat address)
  | .arithmetic operation, [destination, left, right] => do
    let destination ← statement.register labels destination
    let left ← statement.register labels left
    let right ← statement.register labels right
    return .arithmetic operation destination left right
  | .jump, [target] => do
    let target ← statement.value labels 12 target
    return .jump (.ofLowBits target)
  | .branch condition, [tested, target] => do
    let tested ← statement.register labels tested
    let target ← statement.value labels 8 target
    return .branch condition tested (UInt8.ofNat target)
  | .halt, [] => return .halt
  | opcode, _ => .error (statement.operandCountError opcode)

/-- The instruction that a statement stands for. -/
def instr (statement : Statement) (labels : LabelTable) : Except SourceError Instr :=
  match Opcode.ofMnemonic? statement.mnemonic.text with
  | some opcode => statement.instrOf labels opcode
  | none =>
    .error ⟨statement.line, statement.mnemonic.span,
      .unknownInstruction statement.mnemonic.text⟩

end Statement

/-- The words of the statements of an outline. -/
def Outline.encode (outline : Outline) : Except SourceError (List Word) :=
  outline.statements.toList.mapM fun statement =>
    (statement.instr outline.labels).map Instr.encode

/-- An assembled program: its words in the order of their addresses, and its labels. -/
structure Assembly where
  words : List Word
  labels : LabelTable
deriving DecidableEq

/-- The program of a source, or the first mistake in it. -/
def assemble (source : String) : Except SourceError Assembly := do
  let outline ← Outline.ofSource source
  let words ← outline.encode
  return ⟨words, outline.labels⟩

/-- The name that stands for the file of a source without one. -/
def anonymousFile : String := "<source>"

end Asm16
