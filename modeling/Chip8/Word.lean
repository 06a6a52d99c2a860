/-
  File:      Chip8/Word.lean
  Subject:   sixteen-bit words and the fields an instruction keeps in them

  A word is read as four nibbles. From the most significant one they are the group, `x`, `y`
  and `n`; the last two together are a byte, the last three an address:

      word     7 3 E E
      group    7
      x          3
      y            E
      n              E
      constant     E E
      address    3 E E
-/
namespace Chip8

/-- A number of four bits: the number of a register or of a key, or a digit. -/
abbrev Nibble := Fin 16

instance Nibble.instNeZero : @NeZero Nat Zero.ofOfNat0 16 := ⟨by decide⟩

/-- A number of twelve bits: a place in memory, as an instruction names it. -/
abbrev Address := Fin 4096

/-- The low four bits of a byte. -/
def Nibble.ofByte (byte : UInt8) : Nibble := ⟨byte.toNat % 16, Nat.mod_lt _ (by decide)⟩

def Nibble.toByte (nibble : Nibble) : UInt8 := UInt8.ofNat nibble.val

/-- The low twelve bits of a word. -/
def Address.ofWord (word : UInt16) : Address := ⟨word.toNat % 4096, Nat.mod_lt _ (by decide)⟩

def Address.toWord (address : Address) : UInt16 := UInt16.ofNat address.val

namespace Word

/-! ## 1. Digits -/

/-- `count` of the four hexadecimal digits of a word, from the `first` on; the most significant
    digit is number 1. -/
def digits (word : UInt16) (first count : Nat) : Nat :=
  word.toNat / Nat.pow 16 (5 - first - count) % Nat.pow 16 count

/-- The nibble that stands `place` nibbles above the least significant one. -/
def nibble (word : UInt16) (place : Nat) : Nibble :=
  ⟨word.toNat / Nat.pow 16 place % 16, Nat.mod_lt _ (by decide)⟩

/-! ## 2. Fields -/

/-- The group of instructions a word belongs to. -/
def group (word : UInt16) : Nibble := nibble word 3

/-- The first register of an instruction. -/
def x (word : UInt16) : Nibble := nibble word 2

/-- The second register of an instruction. -/
def y (word : UInt16) : Nibble := nibble word 1

/-- The four-bit constant of an instruction. -/
def n (word : UInt16) : Nibble := nibble word 0

/-- The eight-bit constant of an instruction. -/
def constant (word : UInt16) : UInt8 := UInt8.ofNat (word.toNat % 256)

def address (word : UInt16) : Address := Address.ofWord word

/-- The word whose first byte is `high` and whose second is `low`. -/
def ofBytes (high low : UInt8) : UInt16 := UInt16.ofNat (high.toNat * 256 + low.toNat)

/-! ## 3. Words read back -/

@[simp] theorem toNat_constant (word : UInt16) : (constant word).toNat = word.toNat % 256 := by
  simp [constant]

@[simp] theorem val_address (word : UInt16) : (address word).val = word.toNat % 4096 := rfl

@[simp] theorem toNat_ofBytes (high low : UInt8) :
    (ofBytes high low).toNat = high.toNat * 256 + low.toNat := by
  have h1 := high.toNat_lt
  have h2 := low.toNat_lt
  simp only [ofBytes, UInt16.toNat_ofNat']
  omega

end Word

@[simp] theorem Address.toNat_toWord (address : Address) : address.toWord.toNat = address.val := by
  have h := address.isLt
  simp only [Address.toWord, UInt16.toNat_ofNat']
  omega

@[simp] theorem Nibble.toNat_toByte (nibble : Nibble) : nibble.toByte.toNat = nibble.val := by
  have h := nibble.isLt
  simp only [Nibble.toByte, UInt8.toNat_ofNat']
  omega

end Chip8
