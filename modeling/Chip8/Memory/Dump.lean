/-
  File:      Chip8/Memory/Dump.lean
  Subject:   the memory as text

  256 lines of sixteen bytes: the address of the first byte as three digits and a colon, then a
  blank and two digits for each byte. Every line ends with a newline.
-/
import Chip8.Memory
import Chip8.Text.Hex

namespace Chip8.Memory

/-- A byte in a line: a blank and two digits. -/
def dumpByte (m : Memory) (place : Nat) : List Char :=
  ' ' :: Hex.fixed 2 (m.get (UInt16.ofNat place)).toNat

/-- Line number `line`, without its newline. -/
def dumpLine (m : Memory) (line : Nat) : List Char :=
  Hex.fixed 3 (16 * line) ++ ':' :: (List.range 16).flatMap fun column =>
    m.dumpByte (16 * line + column)

/-- The lines of the dump, in order. -/
def dumpLines (m : Memory) : List (List Char) := (List.range 256).map m.dumpLine

/-- **The dump of the whole memory.** -/
def dump (m : Memory) : String :=
  String.ofList (m.dumpLines.flatMap (· ++ ['\n']))

@[simp] theorem length_dumpByte (m : Memory) (place : Nat) : (m.dumpByte place).length = 3 := by
  simp [dumpByte]

end Chip8.Memory
