/-
  File:      Chip8/Instruction/Decode.lean
  Subject:   the instruction a word stands for

  * `decode`: every word is some instruction; a word that no kind of instruction claims is
    `unknown` and carries itself.
-/
import Chip8.Instruction

namespace Chip8.Instruction

/-- Group 0: the plane and the return; every other word is a routine of the machine below. -/
def ofGroup0 (word : UInt16) : Instruction :=
  if word = 0x00E0 then .clear
  else if word = 0x00EE then .ret
  else .sys (Word.address word)

/-- Group 8: arithmetic on two registers, told apart by the last nibble. -/
def ofGroup8 (word : UInt16) : Instruction :=
  let x := Word.x word
  let y := Word.y word
  match (Word.n word).val with
  | 0x0 => .copy x y
  | 0x1 => .or x y
  | 0x2 => .and x y
  | 0x3 => .xor x y
  | 0x4 => .add x y
  | 0x5 => .subtract x y
  | 0x6 => .shiftRight x y
  | 0x7 => .subtractFrom x y
  | 0xE => .shiftLeft x y
  | _ => .unknown word

/-- Group E: tests of the keypad, told apart by the last byte. -/
def ofGroupE (word : UInt16) : Instruction :=
  match (Word.constant word).toNat with
  | 0x9E => .skipIfHeld (Word.x word)
  | 0xA1 => .skipIfFree (Word.x word)
  | _ => .unknown word

/-- Group F: timers, keys, the index register and memory, told apart by the last byte. -/
def ofGroupF (word : UInt16) : Instruction :=
  let x := Word.x word
  match (Word.constant word).toNat with
  | 0x07 => .readDelay x
  | 0x0A => .awaitKey x
  | 0x15 => .setDelay x
  | 0x18 => .setSound x
  | 0x1E => .addToIndex x
  | 0x29 => .pointToGlyph x
  | 0x33 => .storeDecimal x
  | 0x55 => .storeRegisters x
  | 0x65 => .loadRegisters x
  | _ => .unknown word

/-- The instruction a word stands for. -/
def decode (word : UInt16) : Instruction :=
  let x := Word.x word
  let y := Word.y word
  match (Word.group word).val with
  | 0x0 => ofGroup0 word
  | 0x1 => .jump (Word.address word)
  | 0x2 => .call (Word.address word)
  | 0x3 => .skipIfIs x (Word.constant word)
  | 0x4 => .skipIfIsNot x (Word.constant word)
  | 0x5 => if (Word.n word).val = 0 then .skipIfSame x y else .unknown word
  | 0x6 => .set x (Word.constant word)
  | 0x7 => .addConstant x (Word.constant word)
  | 0x8 => ofGroup8 word
  | 0x9 => if (Word.n word).val = 0 then .skipIfDifferent x y else .unknown word
  | 0xA => .setIndex (Word.address word)
  | 0xB => .jumpBeyond (Word.address word)
  | 0xC => .random x (Word.constant word)
  | 0xD => .draw x y (Word.n word)
  | 0xE => ofGroupE word
  | _ => ofGroupF word

end Chip8.Instruction
