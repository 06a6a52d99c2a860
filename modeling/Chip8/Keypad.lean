/-
  File:      Chip8/Keypad.lean
  Subject:   the pad of sixteen keys

  The number of a key counts modulo 16, so any byte names one.
-/
import Chip8.Word

namespace Chip8

/-- Which keys are held. -/
@[ext] structure Keypad where
  held : Vector Bool 16

namespace Keypad

def released : Keypad := ⟨Vector.replicate 16 false⟩

def press (pad : Keypad) (key : UInt8) : Keypad := ⟨pad.held.set (Nibble.ofByte key) true⟩

def release (pad : Keypad) (key : UInt8) : Keypad := ⟨pad.held.set (Nibble.ofByte key) false⟩

def isHeld (pad : Keypad) (key : UInt8) : Bool := pad.held[Nibble.ofByte key]

/-- The held key with the lowest number. -/
def lowestHeld? (pad : Keypad) : Option Nibble :=
  (List.finRange 16).find? fun key => pad.held[key]

/-- The numbers of the held keys, ascending. -/
def heldKeys (pad : Keypad) : List Nibble :=
  (List.finRange 16).filter fun key => pad.held[key]

/-! ## What a change shows -/

@[simp] theorem isHeld_released (key : UInt8) : released.isHeld key = false := by
  simp [isHeld, released]

theorem isHeld_press (pad : Keypad) (a b : UInt8) :
    (pad.press a).isHeld b = (decide (Nibble.ofByte a = Nibble.ofByte b) || pad.isHeld b) := by
  by_cases h : Nibble.ofByte a = Nibble.ofByte b
  · simp [isHeld, press, h]
  · have h' : (Nibble.ofByte a).val ≠ (Nibble.ofByte b).val := fun e => h (Fin.ext e)
    simp [isHeld, press, h, h']

theorem isHeld_release (pad : Keypad) (a b : UInt8) :
    (pad.release a).isHeld b = (!decide (Nibble.ofByte a = Nibble.ofByte b) && pad.isHeld b) := by
  by_cases h : Nibble.ofByte a = Nibble.ofByte b
  · simp [isHeld, release, h]
  · have h' : (Nibble.ofByte a).val ≠ (Nibble.ofByte b).val := fun e => h (Fin.ext e)
    simp [isHeld, release, h, h']

/-- Two keys may be changed in either order, unless one key is to be both. -/
theorem set_set (held : Vector Bool 16) {i j : Nibble} {a b : Bool} (h : i = j → a = b) :
    (held.set i a).set j b = (held.set j b).set i a := by
  by_cases hij : i = j
  · subst hij
    rw [h rfl]
  · exact Vector.set_comm a b fun e => hij (Fin.ext e)

theorem press_press (pad : Keypad) (a b : UInt8) :
    (pad.press a).press b = (pad.press b).press a :=
  congrArg mk (set_set pad.held fun _ => rfl)

theorem release_release (pad : Keypad) (a b : UInt8) :
    (pad.release a).release b = (pad.release b).release a :=
  congrArg mk (set_set pad.held fun _ => rfl)

theorem press_release (pad : Keypad) {a b : UInt8} (h : Nibble.ofByte a ≠ Nibble.ofByte b) :
    (pad.press a).release b = (pad.release b).press a :=
  congrArg mk (set_set pad.held fun e => absurd e h)

theorem lowestHeld?_eq_none_iff (pad : Keypad) : pad.lowestHeld? = none ↔ pad.heldKeys = [] := by
  rw [lowestHeld?, heldKeys, List.find?_eq_none, List.filter_eq_nil_iff]

theorem mem_heldKeys_iff (pad : Keypad) (key : Nibble) :
    key ∈ pad.heldKeys ↔ pad.held[key] = true := by
  simp [heldKeys]

/-- The lowest held key is held, and no held key has a lower number. -/
theorem least_of_lowestHeld? {pad : Keypad} {key : Nibble} (h : pad.lowestHeld? = some key) :
    key ∈ pad.heldKeys ∧ ∀ other ∈ pad.heldKeys, key ≤ other := by
  obtain ⟨hheld, place, hplace, hkey, hlower⟩ := List.find?_eq_some_iff_getElem.mp h
  rw [List.getElem_finRange] at hkey
  subst hkey
  refine ⟨(pad.mem_heldKeys_iff _).mpr hheld, fun other hother => Nat.le_of_not_lt fun hlt => ?_⟩
  -- a key below it was passed by, so it is not held
  have hfree := hlower other.val hlt
  rw [List.getElem_finRange, Bool.not_eq_true'] at hfree
  exact Bool.false_ne_true (hfree.symm.trans ((pad.mem_heldKeys_iff other).mp hother))

end Keypad

end Chip8
