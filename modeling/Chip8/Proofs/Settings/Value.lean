/-
  File:      Chip8/Proofs/Settings/Value.lean
  Subject:   the values that texts denote

  * `bounds_of_readClock`, `mem_of_readScale`, `le_of_readColour`: a clock, a scale and a colour
    that were read lie within their bounds;
  * `not_dash_of_readClock`, `not_dash_of_readScale`, `not_dash_of_readColour`: and none of the
    texts they were read from begins with a dash.
-/
import Chip8.Settings.Value

namespace Chip8

theorem Colour.toNat_ofChannels (red green blue : UInt8) :
    (Colour.ofChannels red green blue).toNat =
      red.toNat * 65536 + green.toNat * 256 + blue.toNat := by
  have hred := red.toNat_lt
  have hgreen := green.toNat_lt
  have hblue := blue.toNat_lt
  show (UInt32.ofNat _).toNat = _
  rw [UInt32.toNat_ofNat']
  omega

namespace Settings

variable {text : String}

/-! ## 1. Bounds -/

theorem bounds_of_readClock {hz : UInt32} (h : readClock text = .ok hz) :
    1 ≤ hz.toNat ∧ hz.toNat ≤ 1000000000 := by
  have hmost : maxClock.toNat = 1000000000 := rfl
  unfold readClock at h
  split at h
  · cases h
  · rename_i value _
    split at h
    · cases h
    · split at h
      · cases h
      · cases h
        rw [UInt32.toNat_ofNat']
        omega

theorem mem_of_readScale {scale : Nat} (h : readScale text = .ok scale) : scale ∈ scales := by
  unfold readScale at h
  split at h
  · cases h
  · split at h
    · rename_i hmem
      cases h
      exact hmem
    · cases h

theorem le_of_readColour {colour : Colour} (h : readColour text = .ok colour) :
    colour.toNat ≤ 0xFFFFFF := by
  unfold readColour at h
  split at h
  · rename_i r1 r0 g1 g0 b1 b0 _
    cases h
    have hred := (UInt8.ofNat (r1 * 16 + r0)).toNat_lt
    have hgreen := (UInt8.ofNat (g1 * 16 + g0)).toNat_lt
    have hblue := (UInt8.ofNat (b1 * 16 + b0)).toNat_lt
    rw [Colour.toNat_ofChannels]
    omega
  · cases h

/-! ## 2. First characters -/

theorem read_of_dash {bound : Nat} {rest : List Char} (h : text.toList = '-' :: rest) :
    Numeral.read bound text = .error .notADigit := by
  unfold Numeral.read
  rw [h]
  rfl

theorem not_dash_of_readClock {hz : UInt32} (h : readClock text = .ok hz) (rest : List Char) :
    text.toList ≠ '-' :: rest := by
  intro hdash
  rw [readClock, read_of_dash hdash] at h
  cases h

theorem not_dash_of_readScale {scale : Nat} (h : readScale text = .ok scale) (rest : List Char) :
    text.toList ≠ '-' :: rest := by
  intro hdash
  rw [readScale, read_of_dash hdash] at h
  cases h

theorem not_dash_of_readColour {colour : Colour} (h : readColour text = .ok colour)
    (rest : List Char) : text.toList ≠ '-' :: rest := by
  intro hdash
  have hdigits : Numeral.hexDigits? (withoutHash text.toList) = none := by
    rw [hdash]
    rfl
  rw [readColour, hdigits] at h
  cases h

end Settings

end Chip8
