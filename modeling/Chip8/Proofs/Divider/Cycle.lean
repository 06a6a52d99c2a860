/-
  File:      Chip8/Proofs/Divider/Cycle.lean
  Subject:   one cycle fed to a divider, at any clock a scheduler may have

  * `sixtieths`: the time a cycle takes, and `Divider.cycles`: what is carried over, both as
    rational numbers;
  * `Carries`: what is carried over is not large, which every cycle keeps;
  * `advance_one`: one cycle is a tick for each sixtieth of a second it takes, with what is carried
    before and after, but for the rounding.
-/
import Chip8.Proofs.Divider.Advance
import Chip8.Settings

namespace Chip8

open Numeric Numeric.Format Numeric.Binary

/-- The sixtieths of a second that a cycle takes at a clock. -/
def sixtieths (hz : UInt32) : ℚ := 60 / hz.toNat

namespace Divider

variable {d : Divider} {hz : UInt32}

/-! ## 1. What is carried over -/

/-- The cycles carried over, as a rational number. -/
def cycles (d : Divider) : ℚ := d.carried.value

/-- **What is carried over counts a moderate number of cycles.** -/
structure Carries (d : Divider) (count : ℤ) : Prop where
  counts : Counts d.carried count
  low : -(double.one : ℤ) ≤ count
  high : count ≤ 2 ^ 25 * double.one

theorem carries_fresh : fresh.Carries 0 where
  counts := counts_zero
  low := by omega
  high := by omega

/-! ## 2. One cycle -/

/-- **One cycle, counted.** -/
theorem advance_one_counts {count : ℤ} (hd : d.Carries count) (hle : hz ≤ maxClock) :
    let ticks := (d.advance (ofNat 1) hz).1
    ∃ rest, (d.advance (ofNat 1) hz).2.Carries rest ∧
      |60 * (count + double.one - rest) - ticks * secondCount hz| * 2 ^ 49 ≤
        (ticks + 1) * secondCount hz ∧
      -(secondCount hz : ℤ) ≤ 480 * rest ∧ 480 * rest ≤ 9 * secondCount hz := by
  intro ticks
  obtain ⟨hcounts, hlow, hhigh⟩ := hd
  have hone := two_pow_le_one
  have hsecond := one_le_secondCount hz
  have hsecond' : secondCount hz ≤ 1000000000 * double.one := by
    refine Nat.mul_le_mul_right _ ?_
    have hmost : hz.toNat ≤ 1000000000 := UInt32.le_iff_toNat_le.mp hle
    omega
  have hperiod := one_le_periodCount hz
  have hperiod' := (periodCount_error hz).1
  have htotal : count + (1 : ℕ) * double.one = count + double.one := by
    rw [Nat.cast_one, one_mul]
  obtain ⟨drawn, rest, hdrawn, hrest, hidle, hlow', hhigh', hfew, hbalance, -⟩ :=
    @advance_balanced d hz count 1 hcounts (by decide) (by omega) (by omega)
  rw [htotal] at hidle hfew hbalance
  obtain ⟨hup, hdown⟩ := nearest_error (count + double.one)
  rw [abs_of_nonneg (by omega : 0 ≤ count + double.one)] at hfew hup hdown
  -- so few ticks that one call reports them all
  have hfew' : drawn * periodCount hz ≤ 2 * (2 ^ 25 + 1) * 61 * periodCount hz := by
    simp only [← Nat.cast_mul] at hfew
    omega
  have hcount := Nat.le_of_mul_le_mul_right hfew' (periodCount_pos hz)
  have hreported : ticks = drawn := by
    show (d.advance (ofNat 1) hz).1 = drawn
    rw [hdrawn]
    exact Nat.min_eq_left (Nat.le_trans hcount (by decide))
  rw [hreported]
  have hdue : drawn * periodCount hz ≤ 2 ^ 32 * periodCount hz :=
    Nat.mul_le_mul_right _ (Nat.le_trans hcount (by decide))
  simp only [← Nat.cast_mul] at hlow' hhigh' hfew
  have hbounds : -(secondCount hz : ℤ) ≤ 480 * rest ∧ 480 * rest ≤ 9 * secondCount hz ∧
      -(double.one : ℤ) ≤ rest ∧ rest ≤ 2 ^ 25 * double.one := by
    by_cases hzero : drawn = 0
    · obtain ⟨hrounded, hbelow⟩ := hidle hzero
      rw [← hrounded] at hup hdown
      omega
    · have hlow'' := hlow' (Nat.pos_of_ne_zero hzero)
      generalize drawn * periodCount hz = due at *
      omega
  obtain ⟨hlow480, hhigh480, hlow1, hhigh1⟩ := hbounds
  exact ⟨rest, ⟨hrest, hlow1, hhigh1⟩, hbalance, hlow480, hhigh480⟩

/-- **One cycle is a tick for each sixtieth it takes**, with what is carried before and after, but
    for the rounding; and what is carried after it is no more than a tick. -/
theorem advance_one {count : ℤ} (hd : d.Carries count) (hge : 1 ≤ hz) (hle : hz ≤ maxClock) :
    let ticks := (d.advance (ofNat 1) hz).1
    let next := (d.advance (ofNat 1) hz).2
    (∃ rest, next.Carries rest) ∧
      |(d.cycles + 1 - next.cycles) * sixtieths hz - ticks| ≤ (ticks + 1) / 2 ^ 49 ∧
      |next.cycles * sixtieths hz| ≤ 9 / 8 := by
  intro ticks next
  obtain ⟨rest, hnext, hbalance, hlow, hhigh⟩ := advance_one_counts hd hle
  have hcycles : d.cycles = count / double.one := hd.counts.value_eq
  have hcycles' : next.cycles = rest / double.one := hnext.counts.value_eq
  have hclock : 1 ≤ hz.toNat := UInt32.le_iff_toNat_le.mp hge
  have hsecond : secondCount hz = hz.toNat * double.one := by
    unfold secondCount
    rw [Nat.max_eq_left hclock]
  refine ⟨⟨rest, hnext⟩, ?_⟩
  rw [hcycles, hcycles', sixtieths]
  have hpositive : 0 < secondCount hz := by
    rw [hsecond]
    exact Nat.mul_pos hclock one_positive
  have hone := one_positive
  generalize double.one = one at hbalance hsecond hone ⊢
  have hone' : (0 : ℚ) < one := by exact_mod_cast hone
  have hclock' : (0 : ℚ) < hz.toNat := by exact_mod_cast hclock
  have hpositive' : (0 : ℚ) < secondCount hz := by exact_mod_cast hpositive
  have hsecond' : (secondCount hz : ℚ) = hz.toNat * one := by exact_mod_cast hsecond
  constructor
  · have hbalance' : |60 * ((count : ℚ) + one - rest) - ticks * secondCount hz| * 2 ^ 49 ≤
        (ticks + 1) * secondCount hz := by exact_mod_cast hbalance
    have hquotient : ((count : ℚ) / one + 1 - rest / one) * (60 / hz.toNat) - ticks =
        (60 * ((count : ℚ) + one - rest) - ticks * secondCount hz) / secondCount hz := by
      rw [hsecond']
      field_simp
    rw [hquotient, abs_div, abs_of_pos hpositive', div_le_iff₀ hpositive']
    linarith
  · have hlow' : -(secondCount hz : ℚ) ≤ 480 * rest := by exact_mod_cast hlow
    have hhigh' : 480 * (rest : ℚ) ≤ 9 * secondCount hz := by exact_mod_cast hhigh
    have hquotient : (rest : ℚ) / one * (60 / hz.toNat) = 60 * rest / secondCount hz := by
      rw [hsecond']
      field_simp
    rw [hquotient, abs_div, abs_of_pos hpositive', div_le_iff₀ hpositive', abs_le]
    constructor <;> linarith

end Divider

end Chip8
