/-
  File:      Chip8/Proofs/Numeric/Count.lean
  Subject:   numbers of 64 bits as the integers they count

  A finite number is an integer number of least positive numbers. Sums, differences and products
  are then roundings of integers.

  * `nearest`: an integer count rounded, with `nearest_error`, `nearest_of_fits` and
    `two_pow_dvd_nearest`;
  * `Counts`: a number counts an integer, and `value` is what it is worth;
  * `counts_add`, `counts_sub`, `counts_mul`, `floor_div_eq`: the operations;
  * `lt_eq_of_counts`: comparison.
-/
import Chip8.Proofs.Numeric.Rounding

namespace Chip8.Numeric

open Format

/-! ## 1. The scale -/

theorem Format.one_eq : double.one = 2 ^ double.scale := by
  unfold one
  rw [Nat.pow_eq]

theorem Format.one_positive : 0 < double.one := by
  rw [one_eq]
  exact Nat.two_pow_pos _

/-- There is room for numbers of a thousand bits. -/
theorem Format.two_pow_mul_one_le {j : ℕ} (h : j ≤ 1000) : 2 ^ j * double.one ≤ double.limit := by
  unfold limit
  rw [one_eq, ← Nat.pow_add, Nat.pow_eq]
  have hscale : double.scale = 1074 := by decide
  have htop : double.precision + Nat.pow 2 double.exponentBits - 3 = 2098 := by decide
  generalize double.scale = scale at hscale ⊢
  generalize double.precision + Nat.pow 2 double.exponentBits - 3 = top at htop ⊢
  exact Nat.pow_le_pow_right (by decide) (by omega)

namespace Binary

/-! ## 2. Rounded integers -/

/-- The count of the number nearest to an integer count. -/
def nearest (count : ℤ) : ℤ := count.sign * (double.round count.natAbs 1 : ℕ)

theorem nearest_natCast (count : ℕ) : nearest count = (double.round count 1 : ℕ) := by
  unfold nearest
  by_cases h : count = 0
  · subst h
    decide
  · rw [Int.natAbs_natCast, Int.sign_natCast_of_ne_zero h, one_mul]

theorem nearest_neg (count : ℤ) : nearest (-count) = -nearest count := by
  rw [nearest, nearest, Int.natAbs_neg, Int.sign_neg, neg_mul]

/-- **An integer that fits is left alone.** -/
theorem nearest_of_fits {count : ℤ} (h : Fits count.natAbs) : nearest count = count := by
  rw [nearest, round_one_of_fits h, Int.sign_mul_natAbs]

/-- **A rounded integer is off by one part in two to the 53rd at most.** -/
theorem nearest_error (count : ℤ) :
    nearest count * 2 ^ 53 ≤ count * 2 ^ 53 + |count| ∧
      count * 2 ^ 53 ≤ nearest count * 2 ^ 53 + |count| := by
  -- rounding does not see the sign
  wlog hsign : 0 ≤ count generalizing count with hpositive
  · have hneg := hpositive (-count) (by omega)
    rw [nearest_neg, abs_neg] at hneg
    omega
  obtain ⟨natural, rfl⟩ := Int.eq_ofNat_of_zero_le hsign
  rw [Nat.abs_cast, nearest_natCast]
  by_cases hsmall : natural < 2 ^ 53
  · rw [round_one_of_fits (fits_of_lt hsmall)]
    omega
  · have hnormal : 1 * 2 ^ 52 ≤ natural := by omega
    obtain ⟨hup, hdown⟩ := round_error_of_le Nat.one_pos hnormal
    omega

/-- **A power of two that divides an integer divides the rounded one.** -/
theorem two_pow_dvd_nearest {count : ℤ} {j : ℕ} (h : (2 : ℤ) ^ j ∣ count) :
    (2 : ℤ) ^ j ∣ nearest count := by
  have hround : 2 ^ j ∣ double.round count.natAbs 1 := by
    refine two_pow_dvd_round ?_
    have hnat := Int.natAbs_dvd_natAbs.mpr h
    rwa [Int.natAbs_pow] at hnat
  have hcast : (2 : ℤ) ^ j ∣ (double.round count.natAbs 1 : ℕ) := by
    exact_mod_cast Int.natCast_dvd_natCast.mpr hround
  exact Dvd.dvd.mul_left hcast _

/-! ## 3. Counts -/

/-- The integer a sign and a count stand for. -/
def signed (negative : Bool) (count : ℕ) : ℤ := if negative then -count else count

theorem signed_false (count : ℕ) : signed false count = count := rfl

/-- A number counts an integer. -/
def Counts (x : Binary double) (count : ℤ) : Prop :=
  ∃ negative natural, x = finite negative natural ∧ count = signed negative natural

variable {x y : Binary double} {a b : ℤ}

theorem counts_zero : Counts zero 0 := ⟨false, 0, rfl, rfl⟩

/-- A number that counts a positive integer. -/
theorem Counts.eq_finite (h : Counts x a) (ha : 0 < a) : x = finite false a.toNat := by
  obtain ⟨s, m, rfl, rfl⟩ := h
  cases s with
  | false => rfl
  | true =>
    have hneg : (0 : ℤ) < -(m : ℤ) := ha
    omega

theorem nearest_signed (negative : Bool) (natural : ℕ) :
    nearest (signed negative natural) = signed negative (double.round natural 1) := by
  cases negative with
  | false => exact nearest_natCast natural
  | true =>
    show nearest (-(natural : ℤ)) = -((double.round natural 1 : ℕ) : ℤ)
    rw [nearest_neg, nearest_natCast]

/-- Rounding an integer at most doubles it. -/
theorem round_le_twice (natural : ℕ) : double.round natural 1 ≤ 2 * natural := by
  obtain ⟨hup, -⟩ := nearest_error natural
  rw [nearest_natCast, Nat.abs_cast] at hup
  omega

/-- A rounded integer, as the operations make one. -/
theorem counts_ofRatio (negative : Bool) {natural : ℕ} (h : 2 * natural < double.limit) :
    Counts (ofRatio negative natural 1) (nearest (signed negative natural)) := by
  have hlimit : double.round natural 1 < double.limit :=
    Nat.lt_of_le_of_lt (round_le_twice natural) h
  refine ⟨negative, double.round natural 1, ?_, nearest_signed negative natural⟩
  unfold ofRatio
  dsimp only
  rw [if_pos hlimit]

/-- The value of a number; `nan` and the infinite ones have none. -/
def value : Binary double → ℚ
  | finite negative natural => signed negative natural / double.one
  | _ => 0

theorem Counts.value_eq (h : Counts x a) : x.value = a / double.one := by
  obtain ⟨s, m, rfl, rfl⟩ := h
  rfl

/-! ## 4. Operations -/

theorem Counts.neg (h : Counts x a) : Counts x.neg (-a) := by
  obtain ⟨s, m, rfl, rfl⟩ := h
  refine ⟨!s, m, rfl, ?_⟩
  cases s with
  | false => rfl
  | true => exact neg_neg _

/-- **A sum is the rounded sum.** -/
theorem counts_add (hx : Counts x a) (hy : Counts y b) (h : 2 * |a + b| < double.limit) :
    Counts (x.add y) (nearest (a + b)) := by
  obtain ⟨s, m, rfl, rfl⟩ := hx
  obtain ⟨t, n, rfl, rfl⟩ := hy
  -- what is left to show once the natural number behind the sum is known
  have hsum : ∀ {u : Bool} {c : ℕ}, signed s m + signed t n = signed u c →
      Counts (ofRatio u c 1) (nearest (signed s m + signed t n)) := by
    intro u c e
    rw [e] at h ⊢
    refine counts_ofRatio u ?_
    have habs : |signed u c| = c := by
      cases u with
      | false => exact Nat.abs_cast c
      | true => exact (abs_neg _).trans (Nat.abs_cast c)
    rw [habs] at h
    exact_mod_cast h
  clear h
  unfold add
  dsimp only
  by_cases hst : s = t
  · rw [if_pos hst]
    refine hsum ?_
    subst hst
    cases s <;> simp only [signed, Bool.false_eq_true, if_false, if_true] <;> omega
  · rw [if_neg hst]
    by_cases hmn : m = n
    · rw [if_pos hmn]
      have hzero : signed s m + signed t n = 0 := by
        subst hmn
        cases s <;> cases t <;> simp_all [signed]
      rw [hzero]
      exact counts_zero
    · rw [if_neg hmn]
      by_cases hlt : n < m
      · rw [if_pos hlt]
        refine hsum ?_
        cases s <;> cases t <;> simp_all [signed] <;> omega
      · rw [if_neg hlt]
        refine hsum ?_
        cases s <;> cases t <;> simp_all [signed] <;> omega

/-- **A difference is the rounded difference.** -/
theorem counts_sub (hx : Counts x a) (hy : Counts y b) (h : 2 * |a - b| < double.limit) :
    Counts (x.sub y) (nearest (a - b)) := by
  rw [sub_eq_add_neg] at h ⊢
  exact counts_add hx hy.neg h

/-- **A whole number of times a number is the rounded product.** -/
theorem counts_mul {times count : ℕ} (h : 2 * (times * count) < double.limit) :
    Counts ((finite false (times * double.one)).mul (finite false count))
      (nearest (times * count : ℕ)) := by
  have hround : double.round (times * double.one * count) double.one =
      double.round (times * count) 1 := by
    have hscaled := round_mul_right (times * count) 1 one_positive
    rw [Nat.one_mul] at hscaled
    rw [← hscaled, Nat.mul_right_comm]
  have hratio : (ofRatio false (times * double.one * count) double.one : Binary double) =
      ofRatio false (times * count) 1 := by
    unfold ofRatio
    rw [hround]
  unfold mul
  dsimp only
  rw [Bool.xor_false, hratio]
  exact counts_ofRatio false h

/-- **A whole number**, exact while it has room in a significand. -/
theorem ofNat_eq {n : ℕ} (h : n < 2 ^ 53) :
    (ofNat n : Binary double) = finite false (n * double.one) := by
  have hfits : Fits (n * double.one) := by
    rw [one_eq]
    exact fits_mul_two_pow h double.scale
  unfold ofNat ofRatio
  dsimp only
  have hlimit : n * double.one < double.limit :=
    Nat.lt_of_lt_of_le (Nat.mul_lt_mul_of_pos_right h one_positive)
      (two_pow_mul_one_le (by decide))
  rw [round_one_of_fits hfits, if_pos hlimit]

/-- How often one number goes into another, cut to a whole number of times. -/
theorem floor_div_eq {total period : ℕ} (hperiod : 0 < period)
    (hlimit : double.round (total * double.one) period < double.limit) :
    ((finite false total : Binary double).div (finite false period)).floor =
      finite false (double.round (total * double.one) period / double.one * double.one) := by
  unfold div ofRatio
  dsimp only
  rw [if_neg hperiod.ne', if_pos hlimit, Bool.xor_false]
  unfold floor
  dsimp only
  rw [if_neg fun h => Bool.false_ne_true h.1]

theorem toNatUpTo_whole (times most : ℕ) :
    (finite false (times * double.one) : Binary double).toNatUpTo most = min times most := by
  unfold toNatUpTo
  dsimp only
  rw [if_neg Bool.false_ne_true, Nat.mul_div_cancel _ one_positive]

theorem counts_ofNat {n : ℕ} (h : n < 2 ^ 53) : Counts (ofNat n) (n * double.one : ℕ) :=
  ⟨false, _, ofNat_eq h, (signed_false _).symm⟩

/-- **Comparison with a number that is not negative.** -/
theorem lt_eq_of_counts (hx : Counts x a) (count : ℕ) :
    x.lt (finite false count) = decide (a < count) := by
  obtain ⟨s, m, rfl, rfl⟩ := hx
  cases s with
  | false =>
    show decide (m < count) = _
    exact decide_eq_decide.mpr Int.ofNat_lt.symm
  | true =>
    show decide (0 < m + count) = decide (-(m : ℤ) < count)
    refine decide_eq_decide.mpr ?_
    omega

end Binary

end Chip8.Numeric
