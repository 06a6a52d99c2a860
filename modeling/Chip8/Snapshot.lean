/-
  File:      Chip8/Snapshot.lean
  Subject:   the state a debugger shows

  * `summary`: one line, for a title;
  * `text`: the summary with the last instruction, the registers in two lines, and the open calls.
-/
import Chip8.Instruction.Decode
import Chip8.Instruction.Mnemonic
import Chip8.Machine

namespace Chip8

/-- A copy of the state a debugger shows, taken between two instructions. -/
@[ext] structure Snapshot where
  opcode : UInt16
  pc : UInt16
  index : UInt16
  registers : Registers
  delay : UInt8
  sound : UInt8
  stack : CallStack
  clock : UInt32

/-- The state of a machine that runs at the given clock. -/
def Machine.snapshot (m : Machine) (clock : UInt32) : Snapshot where
  opcode := m.opcode
  pc := m.pc
  index := m.index
  registers := m.registers
  delay := m.delay.count
  sound := m.sound.count
  stack := m.stack
  clock := clock

namespace Snapshot

/-- One line for a title. -/
def summary (s : Snapshot) : String :=
  "PC " ++ Hex.padded 4 s.pc.toNat ++ "  OP " ++ Hex.padded 4 s.opcode.toNat ++
  "  I " ++ Hex.padded 4 s.index.toNat ++ "  DT " ++ Hex.padded 2 s.delay.toNat ++
  "  ST " ++ Hex.padded 2 s.sound.toNat ++ "  " ++ toString s.clock.toNat ++ " Hz"

/-- A register with its content. -/
def registerText (s : Snapshot) (i : Nibble) : String :=
  "V" ++ Hex.padded 1 i.val ++ "=" ++ Hex.padded 2 (s.registers.get i).toNat

/-- Registers with their contents, in one line. -/
def registerLine (s : Snapshot) (numbers : List Nibble) : String :=
  " ".intercalate (numbers.map s.registerText)

/-- The open calls, the oldest first. -/
def stackText (s : Snapshot) : String :=
  "SP=" ++ toString s.stack.pointer ++ " [" ++
    " ".intercalate (s.stack.toList.map fun address => Hex.padded 3 address.toNat) ++ "]"

/-- **The whole text, four lines.** -/
def text (s : Snapshot) : String :=
  s.summary ++ "  (" ++ (Instruction.decode s.opcode).mnemonic ++ ")\n" ++
  s.registerLine [0, 1, 2, 3, 4, 5, 6, 7] ++ "\n" ++
  s.registerLine [8, 9, 10, 11, 12, 13, 14, 15] ++ "\n" ++
  s.stackText

end Snapshot

end Chip8
