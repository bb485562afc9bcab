/-
**The registers on a terminal.**

* `Machine.plainRegisters` — a line for each register and one for the program counter.
* `Machine.framedRegisters` — the same in a frame, registers also in hexadecimal; its escape
  sequences are there with and without colour.
* `Machine.registerDump` — the one or the other, as the form of the output asks.
-/

import Asm16.Machine
import Asm16.Terminal.Style

namespace Asm16.Machine

open Terminal

/-- Every register with its value, in the order of the registers. -/
def registerValues (machine : Machine) : List (Register × Int32) :=
  (List.finRange 16).map fun index => (⟨index⟩, machine.registers[index])

/-- A line for each register and one for the program counter. -/
def plainRegisters (machine : Machine) : String :=
  String.join (machine.registerValues.map fun (register, value) =>
    s!"{register.name} {value.toInt}\n") ++
    s!"PC {machine.pc.val}\n"

/-- A line of the frame: its content between the two edges. -/
def framedLine (content : String) : String :=
  Style.dimmed.paint "│" ++ content ++ Style.dimmed.paint "│" ++ "\n"

/-- A register with its value, as eight hexadecimal digits of two's complement and in decimal. -/
def framedRegister (register : Register) (value : Int32) : String :=
  framedLine (" " ++ Style.bold.paint (padRight 4 register.name) ++ "0x" ++
    Numeral.hexadecimal 8 value.toUInt32.toNat ++ " " ++ padLeft 11 (toString value.toInt) ++ " ")

/-- The registers and the program counter in a frame. -/
def framedRegisters (machine : Machine) : String :=
  let title := Style.italic.paint "hex          int"
  let pc := "0x" ++ Numeral.hexadecimal 3 machine.pc.val
  Style.dimmed.paint "┌──────────────────────────────┐" ++ "\n" ++
    framedLine ("        " ++ title ++ "      ") ++
    String.join (machine.registerValues.map fun (register, value) =>
      framedRegister register value) ++
    framedLine (" " ++ Style.bold.paint "PC" ++ "  " ++ pc ++ "                   ") ++
    Style.dimmed.paint "└──────────────────────────────┘" ++ "\n"

/-- The registers and the program counter in the given form. -/
def registerDump (form : Form) (machine : Machine) : String :=
  match form with
  | .minimal => machine.plainRegisters
  | .full _ => machine.framedRegisters

end Asm16.Machine
