/-
  File:      Chip8/Memory.lean
  Subject:   the 4096 bytes of memory

  An address counts modulo 4096. The glyphs of the sixteen digits lie at the bottom, five bytes
  each; a program lies from 0x200 on and may fill the rest, 3584 bytes.

  * `powerOn`: the glyphs and zeros;
  * `write`: a block of bytes from a place on;
  * `fetch?`: the word at an address, if both its bytes lie in memory. This is the one access
    that does not wrap.
-/
import Chip8.Word

namespace Chip8

/-- The bytes of a program. -/
abbrev Program := Array UInt8

/-- The contents of the memory. -/
@[ext] structure Memory where
  bytes : Vector UInt8 4096

namespace Memory

/-! ## 1. Layout -/

def size : Nat := 4096

def fontStart : UInt16 := 0x000

/-- The number of bytes, and of rows, of a glyph. -/
def glyphSize : Nat := 5

def programStart : UInt16 := 0x200

/-- The number of bytes a program may have. -/
def programLimit : Nat := size - programStart.toNat

/-- The glyphs of the digits 0 to F, four pixels wide. -/
def font : Array UInt8 := #[
  0xF0, 0x90, 0x90, 0x90, 0xF0,
  0x20, 0x60, 0x20, 0x20, 0x70,
  0xF0, 0x10, 0xF0, 0x80, 0xF0,
  0xF0, 0x10, 0xF0, 0x10, 0xF0,
  0x90, 0x90, 0xF0, 0x10, 0x10,
  0xF0, 0x80, 0xF0, 0x10, 0xF0,
  0xF0, 0x80, 0xF0, 0x90, 0xF0,
  0xF0, 0x10, 0x20, 0x40, 0x40,
  0xF0, 0x90, 0xF0, 0x90, 0xF0,
  0xF0, 0x90, 0xF0, 0x10, 0xF0,
  0xF0, 0x90, 0xF0, 0x90, 0x90,
  0xE0, 0x90, 0xE0, 0x90, 0xE0,
  0xF0, 0x80, 0x80, 0x80, 0xF0,
  0xE0, 0x90, 0x90, 0x90, 0xE0,
  0xF0, 0x80, 0xF0, 0x80, 0xF0,
  0xF0, 0x80, 0xF0, 0x80, 0x80]

def glyphAddress (digit : Nibble) : UInt16 :=
  fontStart + UInt16.ofNat (digit.val * glyphSize)

/-! ## 2. Reading and writing -/

def get (m : Memory) (address : UInt16) : UInt8 := m.bytes[Address.ofWord address]

def set (m : Memory) (address : UInt16) (value : UInt8) : Memory :=
  ⟨m.bytes.set (Address.ofWord address) value⟩

/-- The bytes from place `start` on become `data`; what would lie past the end is dropped. -/
def write (m : Memory) (start : Nat) (data : Array UInt8) : Memory :=
  ⟨Vector.ofFn fun i =>
    if h : start ≤ i.val ∧ i.val - start < data.size then data[i.val - start] else m.bytes[i]⟩

/-- The memory of a machine just switched on: the glyphs and zeros. -/
def powerOn : Memory := write ⟨Vector.replicate 4096 0⟩ fontStart.toNat font

/-- The memory with a program in its place. -/
def withProgram (m : Memory) (program : Program) : Memory :=
  m.write programStart.toNat program

/-- The word at an address, first byte high; none if a byte of it lies outside the memory. -/
def fetch? (m : Memory) (address : UInt16) : Option UInt16 :=
  if h : address.toNat + 1 < 4096 then
    some (Word.ofBytes m.bytes[address.toNat] m.bytes[address.toNat + 1])
  else none

/-- `count` bytes from an address on, the address counting modulo 65536. -/
def read (m : Memory) (address : UInt16) (count : Nat) : List UInt8 :=
  (List.range count).map fun i => m.get (address + UInt16.ofNat i)

/-! ## 3. What is read after a write -/

@[simp] theorem get_set_self (m : Memory) (address : UInt16) (value : UInt8) :
    (m.set address value).get address = value := by simp [get, set]

theorem get_set (m : Memory) (a b : UInt16) (value : UInt8) :
    (m.set a value).get b =
      if Address.ofWord a = Address.ofWord b then value else m.get b := by
  by_cases h : Address.ofWord a = Address.ofWord b
  · simp [get, set, h]
  · have h' : (Address.ofWord a).val ≠ (Address.ofWord b).val := fun e => h (Fin.ext e)
    simp [get, set, h, h']

/-- The first word of a program lies where programs start. -/
theorem fetch?_withProgram (m : Memory) {program : Program} (h : 1 < program.size) :
    (m.withProgram program).fetch? programStart = some (Word.ofBytes program[0] program[1]) := by
  have hroom : programStart.toNat + 1 < 4096 := by decide
  have hfirst : programStart.toNat ≤ programStart.toNat ∧
      programStart.toNat - programStart.toNat < program.size := by omega
  have hsecond : programStart.toNat ≤ programStart.toNat + 1 ∧
      programStart.toNat + 1 - programStart.toNat < program.size := by omega
  unfold fetch? withProgram write
  rw [dif_pos hroom, Vector.getElem_ofFn, Vector.getElem_ofFn, dif_pos hfirst, dif_pos hsecond]
  simp only [Nat.sub_self, Nat.add_sub_cancel_left]

theorem fetch?_eq_none_iff (m : Memory) (address : UInt16) :
    m.fetch? address = none ↔ 0xFFF ≤ address.toNat := by
  unfold fetch?
  split
  · simp; omega
  · simp; omega

end Memory

end Chip8
