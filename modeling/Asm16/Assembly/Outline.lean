/-
**The outline of a source.**

* `Statement` — an instruction line, its operands not yet resolved, with the address it will have.
* `Outline` — the labels and the statements of a source, in the order of its lines.
* `Outline.addLine` — the outline after one more line, or the mistake in it.
* `Outline.ofLines` — the outline of all lines: labels point at the statement that follows them.
-/

import Asm16.Assembly.Mistake
import Asm16.LabelTable
import Asm16.Register

namespace Asm16

/-- An instruction line whose operands are not yet resolved. -/
structure Statement where
  line : Nat
  address : Address
  mnemonic : Token
  operands : List Token
deriving DecidableEq, Repr

/-- The labels and the statements of a source. -/
structure Outline where
  labels : LabelTable
  statements : Array Statement
deriving DecidableEq

namespace Outline

/-- The outline of no lines. -/
def empty : Outline where
  labels := .empty
  statements := #[]

/-- Letters, digits and the underscore, all of ASCII, make up a name. -/
def isNameCharacter (c : Char) : Bool :=
  c.isAlphanum || c == '_'

/-- A label is named by name characters, does not start with a digit and is not a register. -/
def isLabelName (name : String) : Bool :=
  name.toList.head?.any (!·.isDigit) && name.toList.all isNameCharacter &&
    (Register.ofName? name).isNone

/-- The address of the next statement, unless memory is full. -/
def nextAddress? (outline : Outline) : Option Address :=
  Address.ofNat? outline.statements.size

/-- The outline after one more line of a source that has `total` instruction lines. -/
def addLine (total : Nat) (outline : Outline) (line : Line) : Except SourceError Outline :=
  match line.content with
  | .blank | .comment => .ok outline
  | .label name =>
    if isLabelName name.text then
      match outline.nextAddress? with
      | none => .error ⟨line.number, name.span, .labelPastEnd name.text⟩
      | some address =>
        match outline.labels.insert name.text address with
        | .error first =>
          .error ⟨line.number, name.span, .duplicateLabel name.text first.val⟩
        | .ok labels => .ok { outline with labels }
    else .error ⟨line.number, name.span, .invalidLabel name.text⟩
  | .instruction mnemonic operands =>
    match outline.nextAddress? with
    | none => .error ⟨line.number, line.span, .programTooLarge total⟩
    | some address =>
      .ok { outline with
        statements := outline.statements.push ⟨line.number, address, mnemonic, operands⟩ }

/-- The outline of the lines of a source. -/
def ofLines (lines : List Line) : Except SourceError Outline :=
  lines.foldlM (addLine (lines.countP Line.isInstruction)) empty

/-- The outline of a source. -/
def ofSource (source : String) : Except SourceError Outline :=
  ofLines (Source.lines source)

end Outline

end Asm16
