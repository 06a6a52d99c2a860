/-
  File:      Chip8/Instruction/Mnemonic.lean
  Subject:   an instruction as a line of assembly

  Registers are `V` and one digit; addresses, bytes and words are hexadecimal literals of three,
  two and four digits; the height of a sprite is decimal. The two shifts do not name their
  second register.
-/
import Chip8.Instruction
import Chip8.Text.Hex

namespace Chip8.Instruction

def registerName (x : Nibble) : String := "V" ++ Hex.padded 1 x.val

def addressOperand (target : Address) : String := Hex.literal 3 target.val

def byteOperand (value : UInt8) : String := Hex.literal 2 value.toNat

def onRegisterAndByte (operation : String) (x : Nibble) (value : UInt8) : String :=
  operation ++ " " ++ registerName x ++ ", " ++ byteOperand value

def onRegisters (operation : String) (x y : Nibble) : String :=
  operation ++ " " ++ registerName x ++ ", " ++ registerName y

/-- **The line of assembly of an instruction.** -/
def mnemonic : Instruction → String
  | .sys target => "SYS " ++ addressOperand target
  | .clear => "CLS"
  | .ret => "RET"
  | .jump target => "JP " ++ addressOperand target
  | .call target => "CALL " ++ addressOperand target
  | .skipIfIs x value => onRegisterAndByte "SE" x value
  | .skipIfIsNot x value => onRegisterAndByte "SNE" x value
  | .skipIfSame x y => onRegisters "SE" x y
  | .set x value => onRegisterAndByte "LD" x value
  | .addConstant x value => onRegisterAndByte "ADD" x value
  | .copy x y => onRegisters "LD" x y
  | .or x y => onRegisters "OR" x y
  | .and x y => onRegisters "AND" x y
  | .xor x y => onRegisters "XOR" x y
  | .add x y => onRegisters "ADD" x y
  | .subtract x y => onRegisters "SUB" x y
  | .shiftRight x _ => "SHR " ++ registerName x
  | .subtractFrom x y => onRegisters "SUBN" x y
  | .shiftLeft x _ => "SHL " ++ registerName x
  | .skipIfDifferent x y => onRegisters "SNE" x y
  | .setIndex target => "LD I, " ++ addressOperand target
  | .jumpBeyond target => "JP V0, " ++ addressOperand target
  | .random x mask => onRegisterAndByte "RND" x mask
  | .draw x y height => onRegisters "DRW" x y ++ ", " ++ toString height.val
  | .skipIfHeld x => "SKP " ++ registerName x
  | .skipIfFree x => "SKNP " ++ registerName x
  | .readDelay x => "LD " ++ registerName x ++ ", DT"
  | .awaitKey x => "LD " ++ registerName x ++ ", K"
  | .setDelay x => "LD DT, " ++ registerName x
  | .setSound x => "LD ST, " ++ registerName x
  | .addToIndex x => "ADD I, " ++ registerName x
  | .pointToGlyph x => "LD F, " ++ registerName x
  | .storeDecimal x => "LD B, " ++ registerName x
  | .storeRegisters x => "LD [I], " ++ registerName x
  | .loadRegisters x => "LD " ++ registerName x ++ ", [I]"
  | .unknown word => "??? " ++ Hex.literal 4 word.toNat

end Chip8.Instruction
