/-
  File:      Chip8/Proofs/Keypad/Course.lean
  Subject:   what a history of presses and releases tells about each key

  * `Use`: a press or a release of any number, or a reset, with the keypad after it (`afterUse`);
  * `course`: what of a history concerns one key, and nothing of what happens to the others;
    `isHeld_afterUses`: the end of its course tells whether a key is held;
  * `eq_of_isHeld`: a keypad is told by its keys, and `lowestHeld?_eq_some_iff`: the lowest of them
    by which are held;
  * `last_change_decides`: all of this together, so histories that differ only in how the courses
    of different keys interleave lead to one keypad.
-/
import Chip8.Keypad
import Mathlib.Data.List.Induction

namespace Chip8.Keypad

variable {pad : Keypad}

/-! ## 1. Uses of a keypad -/

/-- What is done to a keypad. -/
inductive Use where
  | press (key : UInt8)
  | release (key : UInt8)
  | reset
  deriving DecidableEq

def afterUse (pad : Keypad) : Use → Keypad
  | .press key => pad.press key
  | .release key => pad.release key
  | .reset => released

/-- The keypad after any number of uses, the first one first. -/
def afterUses (pad : Keypad) (history : List Use) : Keypad := history.foldl afterUse pad

theorem afterUses_concat (pad : Keypad) (history : List Use) (use : Use) :
    pad.afterUses (history ++ [use]) = (pad.afterUses history).afterUse use := List.foldl_append

/-! ## 2. The course of one key -/

/-- What can happen to one key. -/
inductive Change where
  | pressed
  | released
  /-- All keys are let go at once. -/
  | reset
  deriving DecidableEq

def Change.holds : Change → Bool
  | .pressed => true
  | .released => false
  | .reset => false

/-- What a use is to key number `n`; nothing if it names a key that is not the same modulo
    sixteen. -/
def change? (n : Nat) : Use → Option Change
  | .press key => if key.toNat % 16 = n then some .pressed else none
  | .release key => if key.toNat % 16 = n then some .released else none
  | .reset => some .reset

/-- **The course of key number `n`**: what of a history concerns it, in order. A reset is part of
    the course of every key. -/
def course (n : Nat) (history : List Use) : List Change := history.filterMap (change? n)

/-- The last thing that happened to key number `n` is a press. -/
def LastPressed (history : List Use) (n : Nat) : Prop :=
  (course n history).getLast? = some .pressed

theorem course_concat (n : Nat) (history : List Use) (use : Use) :
    course n (history ++ [use]) = course n history ++ (change? n use).toList := by
  rw [course, List.filterMap_append]
  cases h : change? n use <;> simp [course, h]

theorem isHeld_afterUse (pad : Keypad) (use : Use) (key : UInt8) :
    (pad.afterUse use).isHeld key =
      ((change? (key.toNat % 16) use).map Change.holds).getD (pad.isHeld key) := by
  have hsame (a : UInt8) : Nibble.ofByte a = Nibble.ofByte key ↔ a.toNat % 16 = key.toNat % 16 :=
    Fin.ext_iff
  cases use with
  | press a =>
    rw [afterUse, isHeld_press, change?]
    by_cases h : a.toNat % 16 = key.toNat % 16 <;> simp [hsame, h, Change.holds]
  | release a =>
    rw [afterUse, isHeld_release, change?]
    by_cases h : a.toNat % 16 = key.toNat % 16 <;> simp [hsame, h, Change.holds]
  | reset => exact isHeld_released key

/-- **The end of its course tells whether a key is held**; a key to which nothing happened is held
    if it was before. -/
theorem isHeld_afterUses (pad : Keypad) (history : List Use) (key : UInt8) :
    (pad.afterUses history).isHeld key =
      ((course (key.toNat % 16) history).getLast?.map Change.holds).getD (pad.isHeld key) := by
  induction history using List.reverseRecOn with
  | nil => rfl
  | append_singleton history use ih =>
    rw [afterUses_concat, isHeld_afterUse, course_concat]
    cases h : change? (key.toNat % 16) use with
    -- what concerns another key lengthens the history, but not the course
    | none => simpa using ih
    | some change => simp

theorem isHeld_afterUses_iff (history : List Use) (key : UInt8) :
    (released.afterUses history).isHeld key = true ↔ LastPressed history (key.toNat % 16) := by
  rw [isHeld_afterUses, isHeld_released, LastPressed]
  cases (course (key.toNat % 16) history).getLast? with
  | none => simp
  | some change => cases change <;> simp [Change.holds]

/-! ## 3. A keypad by its keys -/

theorem isHeld_toByte (pad : Keypad) (key : Nibble) :
    pad.isHeld key.toByte = pad.held.get key := by
  have hkey : Nibble.ofByte key.toByte = key := by
    apply Fin.ext
    show key.toByte.toNat % 16 = key.val
    rw [Nibble.toNat_toByte]
    exact Nat.mod_eq_of_lt key.isLt
  simp only [isHeld, hkey]
  rfl

/-- **A keypad is told by its keys.** -/
theorem eq_of_isHeld {other : Keypad} (h : ∀ key, pad.isHeld key = other.isHeld key) :
    pad = other := by
  apply Keypad.ext
  apply Vector.ext
  intro place hplace
  have hkey := h (Nibble.toByte ⟨place, hplace⟩)
  rw [isHeld_toByte, isHeld_toByte] at hkey
  exact hkey

/-- The lowest held key is the held key that no held key is below. -/
theorem lowestHeld?_eq_some_iff {key : Nibble} :
    pad.lowestHeld? = some key ↔ key ∈ pad.heldKeys ∧ ∀ lower < key, lower ∉ pad.heldKeys := by
  constructor
  · intro h
    obtain ⟨hheld, hleast⟩ := least_of_lowestHeld? h
    exact ⟨hheld, fun lower hlower hmem => Nat.not_le.mpr hlower (hleast lower hmem)⟩
  · intro h
    obtain ⟨hheld, hlower⟩ := h
    cases hfound : pad.lowestHeld? with
    | none =>
      rw [pad.lowestHeld?_eq_none_iff.mp hfound] at hheld
      cases hheld
    | some found =>
      obtain ⟨hfoundHeld, hleast⟩ := least_of_lowestHeld? hfound
      have hge : ¬ found < key := fun hlt => hlower found hlt hfoundHeld
      have heq : found.val = key.val := Nat.le_antisymm (hleast key hheld) (Nat.le_of_not_lt hge)
      rw [Fin.ext heq]

/-! ## 4. Histories -/

theorem mem_heldKeys_afterUses_iff (history : List Use) (key : Nibble) :
    key ∈ (released.afterUses history).heldKeys ↔ LastPressed history key.val := by
  have hkey : key.toByte.toNat % 16 = key.val := by
    rw [Nibble.toNat_toByte]
    exact Nat.mod_eq_of_lt key.isLt
  have hheld := isHeld_afterUses_iff history key.toByte
  rw [isHeld_toByte, hkey] at hheld
  exact (mem_heldKeys_iff _ key).trans hheld

/-- **The last change of each key decides.** However a new keypad is used, a number names a held
    key exactly if the last thing in the course of that key, counted modulo sixteen, is a press. The
    lowest held key is the least such key, and there is none exactly if no key was pressed last.
    So two histories in which each key has the same course lead to the same keypad, however the
    courses of different keys interleave between two resets. -/
theorem last_change_decides (history : List Use) :
    let pad := released.afterUses history
    (∀ key : UInt8, pad.isHeld key = true ↔ LastPressed history (key.toNat % 16)) ∧
    (∀ key : Nibble, pad.lowestHeld? = some key ↔
      LastPressed history key.val ∧ ∀ lower < key, ¬ LastPressed history lower.val) ∧
    (pad.lowestHeld? = none ↔ ∀ key : Nibble, ¬ LastPressed history key.val) ∧
    ∀ other : List Use, (∀ n < 16, course n other = course n history) →
      released.afterUses other = pad := by
  intro pad
  refine ⟨isHeld_afterUses_iff history, ?_, ?_, ?_⟩
  · intro key
    simp only [lowestHeld?_eq_some_iff, ← mem_heldKeys_afterUses_iff]
    exact Iff.rfl
  · simp only [lowestHeld?_eq_none_iff, ← mem_heldKeys_afterUses_iff,
      List.eq_nil_iff_forall_not_mem]
    exact Iff.rfl
  · intro other h
    apply eq_of_isHeld
    intro key
    rw [isHeld_afterUses, isHeld_afterUses, h _ (Nat.mod_lt _ (by decide))]

/-- Key 1 is pressed and let go while key 2 is held, and both are pressed once more. -/
def overlapping : List Use := [.press 1, .press 2, .release 1, .reset, .press 1, .press 2]

/-- The same with the two keys in the other order, and with other numbers for key 1. -/
theorem keypad_overlapping :
    let other : List Use := [.press 2, .press 0x11, .release 0x21, .reset, .press 2, .press 0xF1]
    (∀ n < 16, course n other = course n overlapping) ∧
      released.afterUses other = released.afterUses overlapping := by
  intro other
  have hsame : ∀ n < 16, course n other = course n overlapping := by decide
  exact ⟨hsame, (last_change_decides overlapping).2.2.2 other hsame⟩

end Chip8.Keypad
