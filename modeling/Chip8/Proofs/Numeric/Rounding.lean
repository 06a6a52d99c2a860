/-
  File:      Chip8/Proofs/Numeric/Rounding.lean
  Subject:   how far numbers of 64 bits are rounded, and which are left alone

  * `round_error`: a quotient moves by half a step at most; `round_error_of_le`: unless it is below
    the normal numbers that is one part in two to the 53rd;
  * `round_mul_of_fits`: a count that fits is left alone, as those of few bits are
    (`fits_mul_two_pow`);
  * `two_pow_dvd_round`: a power of two that divides a count divides the rounded one;
  * `two_pow_le_round`, `round_le_two_pow`: rounding does not pass a power of two.
-/
import Mathlib
import Chip8.Numeric.Binary

namespace Chip8.Numeric.Format

variable {count num den : Nat}

/-! ## 1. Steps -/

theorem step_eq (count : Nat) : double.step count = 2 ^ (count.log2 + 1 - 53) := rfl

theorem step_pos (count : Nat) : 0 < double.step count := Nat.two_pow_pos _

/-- A step is small beside a number that is not below the normal ones. -/
theorem step_mul_le (h : 2 ^ 52 ≤ count) : double.step count * 2 ^ 52 ≤ count := by
  have hne : count ≠ 0 := by omega
  have hlog : 52 ≤ count.log2 := (Nat.le_log2 hne).mpr h
  rw [step_eq, ← Nat.pow_add, show count.log2 + 1 - 53 + 52 = count.log2 by omega]
  exact Nat.log2_self_le hne

/-! ## 2. The error of rounding -/

/-- **Rounding moves a quotient by half a step at most.** -/
theorem round_error (num : Nat) (hden : 0 < den) :
    2 * (double.round num den * den) ≤ 2 * num + den * double.step (num / den) ∧
      2 * num ≤ 2 * (double.round num den * den) + den * double.step (num / den) := by
  have hunit : 0 < den * double.step (num / den) := Nat.mul_pos hden (step_pos _)
  unfold round
  dsimp only
  generalize hs : double.step (num / den) = s at hunit ⊢
  have hsplit := Nat.div_add_mod num (den * s)
  have hrest := Nat.mod_lt num hunit
  have hmul : ∀ q : Nat, q * s * den = den * s * q := fun q => by ring
  rw [hmul]
  split
  · omega
  · split
    · rw [Nat.mul_succ]
      omega
    · have hparity : (num / (den * s)) % 2 = 0 ∨ (num / (den * s)) % 2 = 1 := by omega
      rcases hparity with e | e
      · rw [e, Nat.add_zero]
        omega
      · rw [e, Nat.mul_succ]
        omega

/-- **Rounding moves a number that is not below the normal ones by one part in two to the 53rd at
    most.** -/
theorem round_error_of_le (hden : 0 < den) (hnum : den * 2 ^ 52 ≤ num) :
    double.round num den * den * 2 ^ 53 ≤ num * 2 ^ 53 + num ∧
      num * 2 ^ 53 ≤ double.round num den * den * 2 ^ 53 + num := by
  obtain ⟨hup, hdown⟩ := round_error num hden
  have hquotient : 2 ^ 52 ≤ num / den := (Nat.le_div_iff_mul_le hden).mpr (by rwa [Nat.mul_comm])
  have hstep : den * double.step (num / den) * 2 ^ 52 ≤ num :=
    calc den * double.step (num / den) * 2 ^ 52
        = den * (double.step (num / den) * 2 ^ 52) := Nat.mul_assoc _ _ _
      _ ≤ den * (num / den) := Nat.mul_le_mul_left den (step_mul_le hquotient)
      _ ≤ num := Nat.mul_div_le num den
  omega

/-! ## 3. What rounding leaves alone -/

/-- A count that is a number of the format: a multiple of the step of its size. -/
def Fits (count : Nat) : Prop := double.step count ∣ count

/-- **A count that fits is left alone.** -/
theorem round_mul_of_fits (hden : 0 < den) (h : Fits count) :
    double.round (count * den) den = count := by
  obtain ⟨multiple, hmultiple⟩ := h
  have hquotient : count * den / den = count := Nat.mul_div_cancel count hden
  unfold round
  dsimp only
  rw [hquotient]
  have hs := step_pos count
  generalize double.step count = s at hmultiple hs ⊢
  have hprod : count * den = den * s * multiple := by rw [hmultiple]; ring
  have hunit : 0 < den * s := Nat.mul_pos hden hs
  rw [hprod, Nat.mul_mod_right, Nat.mul_zero, if_pos hunit, Nat.mul_div_cancel_left _ hunit,
    hmultiple, Nat.mul_comm]

theorem round_one_of_fits (h : Fits count) : double.round count 1 = count := by
  have hround := round_mul_of_fits Nat.one_pos h
  rwa [Nat.mul_one] at hround

/-- **Counts of few bits fit**, and so do they times a power of two. -/
theorem fits_mul_two_pow {bits : Nat} (h : bits < 2 ^ 53) (j : Nat) : Fits (bits * 2 ^ j) := by
  by_cases hzero : bits = 0
  · rw [hzero, Nat.zero_mul]
    exact Nat.dvd_zero _
  · have hne : bits * 2 ^ j ≠ 0 := Nat.mul_ne_zero hzero (Nat.two_pow_pos j).ne'
    have hlog : (bits * 2 ^ j).log2 < 53 + j := by
      rw [Nat.log2_lt hne, Nat.pow_add]
      exact Nat.mul_lt_mul_of_pos_right h (Nat.two_pow_pos j)
    unfold Fits
    rw [step_eq]
    exact Nat.dvd_trans (Nat.pow_dvd_pow 2 (by omega)) (Nat.dvd_mul_left _ _)

theorem fits_of_lt (h : count < 2 ^ 53) : Fits count := by
  have hfits := fits_mul_two_pow h 0
  rwa [Nat.pow_zero, Nat.mul_one] at hfits

/-- A rounded number is a multiple of the step. -/
theorem step_dvd_round (num den : Nat) :
    double.step (num / den) ∣ double.round num den := Nat.dvd_mul_left _ _

/-- **A power of two that divides a count divides the rounded one.** -/
theorem two_pow_dvd_round {j : Nat} (h : 2 ^ j ∣ count) : 2 ^ j ∣ double.round count 1 := by
  by_cases hj : j ≤ count.log2 + 1 - 53
  · -- the step is coarser, and the rounded count is a multiple of it
    have hstep := step_dvd_round count 1
    rw [Nat.div_one, step_eq] at hstep
    exact Nat.dvd_trans (Nat.pow_dvd_pow 2 hj) hstep
  · -- the step is finer, so that the count fits
    have hfits : Fits count := by
      unfold Fits
      rw [step_eq]
      exact Nat.dvd_trans (Nat.pow_dvd_pow 2 (by omega)) h
    rwa [round_one_of_fits hfits]

/-- A quotient is rounded in the same way if both its parts are multiplied. -/
theorem round_mul_right (num den : Nat) {factor : Nat} (hfactor : 0 < factor) :
    double.round (num * factor) (den * factor) = double.round num den := by
  unfold round
  dsimp only
  rw [Nat.mul_div_mul_right num den hfactor]
  generalize double.step (num / den) = s
  have hunit : den * factor * s = den * s * factor := by ring
  have htwice : 2 * (num % (den * s) * factor) = 2 * (num % (den * s)) * factor := by ring
  rw [hunit, Nat.mul_div_mul_right _ _ hfactor, Nat.mul_mod_mul_right, htwice]
  simp only [Nat.mul_lt_mul_right hfactor]

/-- **Rounding does not fall below a power of two** that the quotient reaches. -/
theorem two_pow_le_round {j : Nat} (hden : 0 < den) (h : 2 ^ j * den ≤ num) :
    2 ^ j ≤ double.round num den := by
  have hquotient : 2 ^ j ≤ num / den := (Nat.le_div_iff_mul_le hden).mpr h
  have hne : num / den ≠ 0 := by
    have := Nat.two_pow_pos j
    omega
  -- the step and the power of two are both powers of two below the quotient
  have hle : ∀ i, 2 ^ i ≤ num / den → double.step (num / den) ∣ 2 ^ i →
      2 ^ i ≤ double.round num den := by
    rintro i hi ⟨multiple, hmultiple⟩
    have hs := step_pos (num / den)
    have hlow : 2 ^ i ≤ num / (den * double.step (num / den)) * double.step (num / den) := by
      rw [hmultiple, Nat.mul_comm]
      refine Nat.mul_le_mul_right _ ?_
      rw [Nat.le_div_iff_mul_le (Nat.mul_pos hden hs)]
      calc multiple * (den * double.step (num / den))
          = double.step (num / den) * multiple * den := by ring
        _ = 2 ^ i * den := by rw [← hmultiple]
        _ ≤ num / den * den := Nat.mul_le_mul_right den hi
        _ ≤ num := Nat.div_mul_le_self num den
    refine Nat.le_trans hlow ?_
    unfold round
    dsimp only
    refine Nat.mul_le_mul_right _ ?_
    split
    · exact Nat.le_refl _
    · split
      · exact Nat.le_succ _
      · exact Nat.le_add_right _ _
  have hlog : j ≤ (num / den).log2 := (Nat.le_log2 hne).mpr hquotient
  by_cases hj : (num / den).log2 + 1 - 53 ≤ j
  · exact hle j hquotient (Nat.pow_dvd_pow 2 hj)
  · have hstep : double.step (num / den) ∣ 2 ^ (num / den).log2 := by
      rw [step_eq]
      exact Nat.pow_dvd_pow 2 (by omega)
    have hhigh := hle (num / den).log2 (Nat.log2_self_le hne) hstep
    exact Nat.le_trans (Nat.pow_le_pow_right (by decide) hlog) hhigh

/-- **Rounding does not pass a power of two** that the quotient stays below. -/
theorem round_le_two_pow {j : Nat} (hden : 0 < den) (h : num < 2 ^ j * den) :
    double.round num den ≤ 2 ^ j := by
  obtain ⟨hup, -⟩ := round_error num hden
  have hquotient : num / den < 2 ^ j := (Nat.div_lt_iff_lt_mul hden).mpr h
  -- the step divides the power of two, and half a step is not enough to pass it
  have hstep : double.step (num / den) ∣ 2 ^ j := by
    rw [step_eq]
    refine Nat.pow_dvd_pow 2 ?_
    by_cases hzero : num / den = 0
    · rw [hzero]
      exact Nat.zero_le _
    · have hlog := (Nat.log2_lt hzero).mpr hquotient
      omega
  obtain ⟨rounded, hrounded⟩ := step_dvd_round num den
  obtain ⟨power, hpower⟩ := hstep
  rw [hrounded] at hup ⊢
  rw [hpower] at h ⊢
  have hs := step_pos (num / den)
  generalize double.step (num / den) = s at h hup hs ⊢
  refine Nat.mul_le_mul_left s ?_
  by_contra hlarge
  have hnext : (power + 1) * (s * den) ≤ rounded * (s * den) :=
    Nat.mul_le_mul_right _ (Nat.lt_of_not_le hlarge)
  have hunit : 0 < s * den := Nat.mul_pos hs hden
  have hr : s * rounded * den = rounded * (s * den) := by ring
  have hp : s * power * den = power * (s * den) := by ring
  have hu : den * s = s * den := Nat.mul_comm _ _
  rw [hr, hu] at hup
  rw [hp] at h
  rw [Nat.succ_mul] at hnext
  omega

end Chip8.Numeric.Format
