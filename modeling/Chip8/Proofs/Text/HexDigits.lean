/-
  File:      Chip8/Proofs/Text/HexDigits.lean
  Subject:   hexadecimal digits of either case and the numbers they denote

  * `Hex.Shows`: a character is the digit of a number below sixteen, in upper or lower case;
    `hexDigit?_eq_some_iff`: these are the digits that are read;
  * `Hex.Denotes`: a text of such digits and its number in base sixteen, each digit times its power
    of sixteen; `value?_eq_some_iff`: the number that is read;
  * `Denotes.lt`, `Denotes.lower`, `denotes_fixed`: how large it is, that the case does not matter,
    and that the digits of a number denote it.
-/
import Chip8.Proofs.Text.ReadBack
import Mathlib.Data.Nat.Digits.Defs
import Mathlib.Data.List.Forall2
import Mathlib.Data.List.Induction

namespace Chip8.Hex

open Numeral

variable {text : List Char} {values : List Nat} {c : Char} {d n : Nat}

/-! ## 1. Digits -/

/-- A character is the digit of a number below sixteen, in upper or lower case. -/
def Shows (c : Char) (d : Nat) : Prop := d < 16 ∧ (c = digit d ∨ c = Nat.digitChar d)

instance (c : Char) (d : Nat) : Decidable (Shows c d) :=
  inferInstanceAs (Decidable (d < 16 ∧ (c = digit d ∨ c = Nat.digitChar d)))

theorem le_of_hexDigit? (h : hexDigit? c = some d) : c.toNat ≤ 102 := by
  have hdigits : '9'.toNat ≤ 102 ∧ 'F'.toNat ≤ 102 ∧ 'f'.toNat ≤ 102 := by decide
  unfold hexDigit? at h
  split at h
  · rename_i hrange
    exact Nat.le_trans hrange.2 hdigits.1
  · split at h
    · rename_i hrange
      exact Nat.le_trans hrange.2 hdigits.2.1
    · split at h
      · rename_i hrange
        exact Nat.le_trans hrange.2 hdigits.2.2
      · cases h

/-- **The characters that are read as digits.** -/
theorem hexDigit?_eq_some_iff : hexDigit? c = some d ↔ Shows c d := by
  constructor
  · -- there are few characters up to the last digit
    have hall : ∀ k : Fin 103, ∀ d ∈ hexDigit? (Char.ofNat k.val), Shows (Char.ofNat k.val) d := by
      decide
    intro h
    have hread := hall ⟨c.toNat, Nat.lt_succ_of_le (le_of_hexDigit? h)⟩ d
    rw [Char.ofNat_toNat] at hread
    exact hread h
  · have hlower : ∀ k : Fin 16, hexDigit? (Nat.digitChar k.val) = some k.val := by decide
    intro h
    obtain ⟨hd, rfl | rfl⟩ := h
    · exact hexDigit?_digit hd
    · exact hlower ⟨d, hd⟩

theorem Shows.lower (h : Shows c d) : Shows c.toLower d := by
  have hupper : ∀ k : Fin 16, (digit k.val).toLower = Nat.digitChar k.val := by decide
  have hlower : ∀ k : Fin 16, (Nat.digitChar k.val).toLower = Nat.digitChar k.val := by decide
  obtain ⟨hd, rfl | rfl⟩ := h
  · exact ⟨hd, .inr (hupper ⟨d, hd⟩)⟩
  · exact ⟨hd, .inr (hlower ⟨d, hd⟩)⟩

/-- A digit takes one byte. -/
theorem Shows.utf8Size_eq (h : Shows c d) : c.utf8Size = 1 := by
  have hle := le_of_hexDigit? (hexDigit?_eq_some_iff.mpr h)
  exact Char.utf8Size_eq_one_iff.mpr (UInt32.le_iff_toNat_le.mpr (Nat.le_trans hle (by decide)))

/-- The characters that the standard counts as hexadecimal digits are these. -/
theorem isHexDigit_iff : c.isHexDigit = true ↔ ∃ d, Shows c d := by
  constructor
  · -- all of them lie below 103
    have hall : ∀ k : Fin 103, (Char.ofNat k.val).isHexDigit = true →
        ∃ d : Fin 16, Shows (Char.ofNat k.val) d.val := by decide
    intro h
    have hle : c.toNat ≤ 102 := by
      simp only [Char.isHexDigit, Char.isDigit, Bool.or_eq_true, Bool.and_eq_true,
        decide_eq_true_eq, ge_iff_le, UInt32.le_iff_toNat_le] at h
      rcases h with (h | h) | h
      · exact Nat.le_trans h.2 (by decide)
      · exact Nat.le_trans h.2 (by decide)
      · exact Nat.le_trans h.2 (by decide)
    have hread := hall ⟨c.toNat, Nat.lt_succ_of_le hle⟩
    rw [Char.ofNat_toNat] at hread
    obtain ⟨d, hd⟩ := hread h
    exact ⟨d.val, hd⟩
  · have hupper : ∀ k : Fin 16, (digit k.val).isHexDigit = true := by decide
    have hlower : ∀ k : Fin 16, (Nat.digitChar k.val).isHexDigit = true := by decide
    intro h
    obtain ⟨d, hd, rfl | rfl⟩ := h
    · exact hupper ⟨d, hd⟩
    · exact hlower ⟨d, hd⟩

/-! ## 2. Numbers -/

theorem hexDigits?_eq_some_iff :
    hexDigits? text = some values ↔ List.Forall₂ Shows text values := by
  induction text generalizing values with
  | nil => simp [hexDigits?, eq_comm]
  | cons c rest ih =>
    rw [hexDigits?] at ih ⊢
    rw [List.mapM_cons, List.forall₂_cons_left_iff]
    constructor
    · intro h
      obtain ⟨d, hd, h⟩ := Option.bind_eq_some_iff.mp h
      obtain ⟨more, hmore, h⟩ := Option.bind_eq_some_iff.mp h
      exact ⟨d, more, hexDigit?_eq_some_iff.mp hd, ih.mp hmore, (Option.some.inj h).symm⟩
    · intro h
      obtain ⟨d, more, hd, hmore, rfl⟩ := h
      simp [hexDigit?_eq_some_iff.mpr hd, ih.mpr hmore]

theorem lt_of_shows (h : List.Forall₂ Shows text values) (hd : d ∈ values) : d < 16 := by
  induction h with
  | nil => cases hd
  | cons hfirst hrest ih =>
    rcases List.mem_cons.mp hd with rfl | hmore
    · exact hfirst.1
    · exact ih hmore

theorem utf8Size_of_shows (h : List.Forall₂ Shows text values) (hc : c ∈ text) :
    c.utf8Size = 1 := by
  induction h with
  | nil => cases hc
  | cons hfirst hrest ih =>
    rcases List.mem_cons.mp hc with rfl | hmore
    · exact hfirst.utf8Size_eq
    · exact ih hmore

/-- The texts of digits, character by character. -/
theorem exists_shows_iff :
    (∃ values, List.Forall₂ Shows text values) ↔ ∀ c ∈ text, c.isHexDigit = true := by
  constructor
  · intro h c hc
    obtain ⟨values, hshows⟩ := h
    induction hshows with
    | nil => cases hc
    | cons hfirst hrest ih =>
      rcases List.mem_cons.mp hc with rfl | hmore
      · exact isHexDigit_iff.mpr ⟨_, hfirst⟩
      · exact ih hmore
  · intro h
    induction text with
    | nil => exact ⟨[], .nil⟩
    | cons c rest ih =>
      obtain ⟨d, hd⟩ := isHexDigit_iff.mp (h c List.mem_cons_self)
      obtain ⟨more, hmore⟩ := ih fun e he => h e (List.mem_cons_of_mem c he)
      exact ⟨d :: more, .cons hd hmore⟩

/-- **A text of digits denotes a number in base sixteen.** -/
def Denotes (text : List Char) (n : Nat) : Prop :=
  ∃ values, List.Forall₂ Shows text values ∧ n = Nat.ofDigits 16 values.reverse

theorem ofHexDigits_eq (values : List Nat) :
    ofHexDigits values = Nat.ofDigits 16 values.reverse := by
  induction values using List.reverseRecOn with
  | nil => rfl
  | append_singleton values d ih =>
    rw [List.reverse_concat, Nat.ofDigits_cons, ← ih, ofHexDigits, List.foldl_concat, ← ofHexDigits,
      Nat.mul_comm, Nat.add_comm]

theorem value?_eq_some_iff : value? text = some n ↔ Denotes text n := by
  rw [value?, Option.map_eq_some_iff, Denotes]
  simp only [hexDigits?_eq_some_iff, ofHexDigits_eq, @eq_comm Nat n]

theorem Denotes.unique {m : Nat} (h : Denotes text n) (hm : Denotes text m) : n = m := by
  rw [← value?_eq_some_iff] at h hm
  exact Option.some.inj (h.symm.trans hm)

theorem Denotes.lt (h : Denotes text n) : n < Nat.pow 16 text.length := by
  obtain ⟨values, hshows, rfl⟩ := h
  have hlt : ∀ d ∈ values.reverse, d < 16 := by
    intro d hd
    exact lt_of_shows hshows (List.mem_reverse.mp hd)
  have hlength : values.reverse.length = text.length := by
    rw [List.length_reverse, hshows.length_eq]
  rw [← hlength]
  exact Nat.ofDigits_lt_base_pow_length (by decide) hlt

theorem Denotes.lower (h : Denotes text n) : Denotes (text.map Char.toLower) n := by
  obtain ⟨values, hshows, rfl⟩ := h
  exact ⟨values, List.forall₂_map_left_iff.mpr (hshows.imp fun _ _ => Shows.lower), rfl⟩

/-- The digits of a number denote it. -/
theorem denotes_fixed {width : Nat} (h : n < Nat.pow 16 width) : Denotes (fixed width n) n := by
  rw [← value?_eq_some_iff, value?_fixed, Nat.mod_eq_of_lt h]

end Chip8.Hex
