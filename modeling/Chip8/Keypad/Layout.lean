/-
  File:      Chip8/Keypad/Layout.lean
  Subject:   which keys of a typewriter keyboard play the pad

  The pad lies on the left of the keyboard, row for row:

      1 2 3 C      1 2 3 4
      4 5 6 D      Q W E R
      7 8 9 E      A S D F
      A 0 B F      Z X C V
-/
import Chip8.Word

namespace Chip8.Keypad

/-- The keys of the keyboard, row for row, with the keys of the pad they play. -/
def layout : List (Char × Nibble) := [
  ('1', 0x1), ('2', 0x2), ('3', 0x3), ('4', 0xC),
  ('Q', 0x4), ('W', 0x5), ('E', 0x6), ('R', 0xD),
  ('A', 0x7), ('S', 0x8), ('D', 0x9), ('F', 0xE),
  ('Z', 0xA), ('X', 0x0), ('C', 0xB), ('V', 0xF)]

/-- The key of the pad that a key of the keyboard plays, if any. -/
def keyFor? (key : Char) : Option Nibble := layout.lookup key

end Chip8.Keypad
