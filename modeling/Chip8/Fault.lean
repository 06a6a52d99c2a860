/-
  File:      Chip8/Fault.lean
  Subject:   what a running program can do wrong

  Three faults stop a program. Each carries the place of the instruction it happened at.
-/
import Chip8.Text.Hex

namespace Chip8

/-- A fault of a running program. -/
inductive Fault where
  /-- A seventeenth call was opened. -/
  | stackOverflow (pc : UInt16)
  /-- A return with no call open. -/
  | stackUnderflow (pc : UInt16)
  /-- The next word does not lie in memory. -/
  | outOfBounds (pc : UInt16)
  deriving DecidableEq

def Fault.pc : Fault → UInt16
  | .stackOverflow pc => pc
  | .stackUnderflow pc => pc
  | .outOfBounds pc => pc

def Fault.message : Fault → String
  | .stackOverflow pc => "call stack overflow at " ++ Hex.literal 3 pc.toNat
  | .stackUnderflow pc =>
    "return from subroutine with an empty call stack at " ++ Hex.literal 3 pc.toNat
  | .outOfBounds pc => "program counter out of bounds: " ++ Hex.literal 4 pc.toNat

end Chip8
