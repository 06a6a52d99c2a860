/-
  File:      Chip8/Registers.lean
  Subject:   the sixteen registers V0 to VF

  VF doubles as the flag of the instructions that report a carry, a borrow, a bit shifted out or
  a collision.
-/
import Chip8.Word

namespace Chip8

/-- The contents of the registers. -/
@[ext] structure Registers where
  values : Vector UInt8 16

namespace Registers

def flag : Nibble := 15

def zero : Registers := ⟨Vector.replicate 16 0⟩

def get (v : Registers) (i : Nibble) : UInt8 := v.values.get i

def set (v : Registers) (i : Nibble) (value : UInt8) : Registers :=
  ⟨v.values.setIfInBounds i.val value⟩

/-- The flag register becomes one or zero. -/
def setFlag (v : Registers) (on : Bool) : Registers := v.set flag (if on then 1 else 0)

/-- Register `i` grows by `value` modulo 256; the flag register is left alone. -/
def add (v : Registers) (i : Nibble) (value : UInt8) : Registers := v.set i (v.get i + value)

/-! ## What is read after a write -/

@[simp] theorem get_set_self (v : Registers) (i : Nibble) (value : UInt8) :
    (v.set i value).get i = value :=
  Vector.getElem_setIfInBounds_self i.isLt

theorem get_set (v : Registers) (i j : Nibble) (value : UInt8) :
    (v.set i value).get j = if i = j then value else v.get j := by
  by_cases h : i = j
  · subst h; simp
  · have h' : i.val ≠ j.val := fun e => h (Fin.ext e)
    rw [if_neg h]
    exact Vector.getElem_setIfInBounds_ne j.isLt h'

@[simp] theorem get_zero (i : Nibble) : zero.get i = 0 := Vector.getElem_replicate i.isLt

/-- Registers that read the same are the same. -/
theorem ext_get {v w : Registers} (h : ∀ i, v.get i = w.get i) : v = w := by
  apply Registers.ext
  apply Vector.ext
  intro i hi
  exact h ⟨i, hi⟩

end Registers

end Chip8
