/-
  File:      Chip8/Instruction.lean
  Subject:   what one instruction of a program asks for

  One constructor for each kind of instruction. Registers are named by nibbles `x` and `y`; VX
  is the content of register `x`, VF the flag register and I the index register.
-/
import Chip8.Word

namespace Chip8

/-- An instruction. -/
inductive Instruction where
  /-- `0NNN`: a routine of the machine below, which this machine does not have; ignored. -/
  | sys (target : Address)
  /-- `00E0`: switch every pixel off. -/
  | clear
  /-- `00EE`: go on behind the latest call. -/
  | ret
  /-- `1NNN`: go to an address. -/
  | jump (target : Address)
  /-- `2NNN`: remember this place and go to an address. -/
  | call (target : Address)
  /-- `3XNN`: skip an instruction if VX is the constant. -/
  | skipIfIs (x : Nibble) (value : UInt8)
  /-- `4XNN`: skip an instruction if VX is not the constant. -/
  | skipIfIsNot (x : Nibble) (value : UInt8)
  /-- `5XY0`: skip an instruction if VX is VY. -/
  | skipIfSame (x y : Nibble)
  /-- `6XNN`: VX becomes the constant. -/
  | set (x : Nibble) (value : UInt8)
  /-- `7XNN`: add the constant to VX; VF stays. -/
  | addConstant (x : Nibble) (value : UInt8)
  /-- `8XY0`: VX becomes VY. -/
  | copy (x y : Nibble)
  /-- `8XY1`: VX becomes VX or VY, bit by bit. -/
  | or (x y : Nibble)
  /-- `8XY2`: VX becomes VX and VY, bit by bit. -/
  | and (x y : Nibble)
  /-- `8XY3`: VX becomes VX exclusive-or VY, bit by bit. -/
  | xor (x y : Nibble)
  /-- `8XY4`: add VY to VX; VF becomes the carry. -/
  | add (x y : Nibble)
  /-- `8XY5`: take VY from VX; VF tells that VY was smaller. -/
  | subtract (x y : Nibble)
  /-- `8XY6`: halve VX; VF becomes the bit shifted out. The second register is not used. -/
  | shiftRight (x y : Nibble)
  /-- `8XY7`: VX becomes VY less VX; VF tells that VX was smaller. -/
  | subtractFrom (x y : Nibble)
  /-- `8XYE`: double VX; VF becomes the bit shifted out. The second register is not used. -/
  | shiftLeft (x y : Nibble)
  /-- `9XY0`: skip an instruction if VX is not VY. -/
  | skipIfDifferent (x y : Nibble)
  /-- `ANNN`: I becomes the address. -/
  | setIndex (target : Address)
  /-- `BNNN`: go to the address V0 behind the given one. -/
  | jumpBeyond (target : Address)
  /-- `CXNN`: VX becomes a random byte and the mask, bit by bit. -/
  | random (x : Nibble) (mask : UInt8)
  /-- `DXYN`: flip a sprite of so many rows from I onto the plane at (VX, VY); VF tells that a
      pixel was switched off. -/
  | draw (x y height : Nibble)
  /-- `EX9E`: skip an instruction if the key VX is held. -/
  | skipIfHeld (x : Nibble)
  /-- `EXA1`: skip an instruction if the key VX is not held. -/
  | skipIfFree (x : Nibble)
  /-- `FX07`: VX becomes the delay timer. -/
  | readDelay (x : Nibble)
  /-- `FX0A`: VX becomes the lowest held key; wait here while there is none. -/
  | awaitKey (x : Nibble)
  /-- `FX15`: the delay timer becomes VX. -/
  | setDelay (x : Nibble)
  /-- `FX18`: the sound timer becomes VX. -/
  | setSound (x : Nibble)
  /-- `FX1E`: add VX to I; VF tells that the sum left the memory. -/
  | addToIndex (x : Nibble)
  /-- `FX29`: I becomes the place of the glyph of digit VX. -/
  | pointToGlyph (x : Nibble)
  /-- `FX33`: store the three decimal digits of VX from I on. -/
  | storeDecimal (x : Nibble)
  /-- `FX55`: store V0 to VX from I on. -/
  | storeRegisters (x : Nibble)
  /-- `FX65`: load V0 to VX from I on. -/
  | loadRegisters (x : Nibble)
  /-- Any other word; ignored. -/
  | unknown (word : UInt16)

end Chip8
