/-
  File:      Chip8/Proofs/Divider/Advance.lean
  Subject:   what one advance of a divider does, in integers

  Cycles are counted in least positive numbers, as `Counts` has it, and every operation of an
  advance is a rounding of integers.

  * `periodCount`: the length of a tick, off by one part in two to the 53rd at most
    (`periodCount_error`);
  * `Balanced`: what may become of a total of cycles, and `advance_balanced`: an advance does that.
    Ticks and rest make up the total but for the rounding;
  * `advance_exact`: when the length of a tick is a number of few bits nothing is rounded.
-/
import Chip8.Divider
import Chip8.Proofs.Numeric.Count

namespace Chip8.Divider

open Numeric Numeric.Format Numeric.Binary

variable {d : Divider} {hz : UInt32} {carried : ℤ} {cycles : ℕ}

/-! ## 1. The length of a tick -/

/-- The cycles of one second, counted. -/
def secondCount (hz : UInt32) : ℕ := max hz.toNat 1 * double.one

/-- The cycles of one tick, counted. -/
def periodCount (hz : UInt32) : ℕ := double.round (secondCount hz) 60

theorem one_le_secondCount (hz : UInt32) : double.one ≤ secondCount hz :=
  Nat.le_mul_of_pos_left _ (by omega)

theorem secondCount_le (hz : UInt32) : secondCount hz ≤ 2 ^ 32 * double.one := by
  refine Nat.mul_le_mul_right _ ?_
  have hword := hz.toNat_lt
  omega

/-- One is a large count. -/
theorem two_pow_le_one : 2 ^ 100 ≤ double.one := by
  rw [one_eq]
  exact Nat.pow_le_pow_right (by decide) (by decide)

/-- **The length of a tick**, but for the rounding. -/
theorem periodCount_error (hz : UInt32) :
    periodCount hz * 60 * 2 ^ 53 ≤ secondCount hz * 2 ^ 53 + secondCount hz ∧
      secondCount hz * 2 ^ 53 ≤ periodCount hz * 60 * 2 ^ 53 + secondCount hz := by
  refine round_error_of_le (by decide) ?_
  have hsecond := one_le_secondCount hz
  have hone := two_pow_le_one
  omega

/-- The cycles of a number of ticks, but for the rounding. -/
theorem ticks_mul_error (hz : UInt32) (ticks : ℕ) :
    ticks * periodCount hz * 60 * 2 ^ 53 ≤
        ticks * secondCount hz * 2 ^ 53 + ticks * secondCount hz ∧
      ticks * secondCount hz * 2 ^ 53 ≤
        ticks * periodCount hz * 60 * 2 ^ 53 + ticks * secondCount hz := by
  obtain ⟨hup, hdown⟩ := periodCount_error hz
  constructor
  · calc ticks * periodCount hz * 60 * 2 ^ 53 = ticks * (periodCount hz * 60 * 2 ^ 53) := by ring
      _ ≤ ticks * (secondCount hz * 2 ^ 53 + secondCount hz) := Nat.mul_le_mul_left _ hup
      _ = _ := by ring
  · calc ticks * secondCount hz * 2 ^ 53 = ticks * (secondCount hz * 2 ^ 53) := by ring
      _ ≤ ticks * (periodCount hz * 60 * 2 ^ 53 + secondCount hz) := Nat.mul_le_mul_left _ hdown
      _ = _ := by ring

theorem periodCount_le (hz : UInt32) : periodCount hz ≤ secondCount hz := by
  have herror := (periodCount_error hz).1
  omega

theorem period_eq (hz : UInt32) : period hz = finite false (periodCount hz) := by
  have hword := hz.toNat_lt
  have hlimit : periodCount hz < double.limit :=
    Nat.lt_of_le_of_lt (Nat.le_trans (periodCount_le hz) (secondCount_le hz)) <|
      Nat.lt_of_lt_of_le (Nat.mul_lt_mul_of_pos_right (by decide) one_positive)
        (two_pow_mul_one_le (j := 33) (by decide))
  have hround : double.round (max hz.toNat 1 * double.one * double.one) (60 * double.one) =
      periodCount hz := round_mul_right _ _ one_positive
  unfold period
  rw [ofNat_eq (by omega : max hz.toNat 1 < 2 ^ 53), ofNat_eq (by decide)]
  unfold Timer.ticksPerSecond div ofRatio
  dsimp only
  rw [if_neg (Nat.mul_ne_zero (by decide) one_positive.ne'), hround, if_pos hlimit, Bool.xor_false]

theorem one_le_periodCount (hz : UInt32) : double.one ≤ 61 * periodCount hz := by
  have herror := (periodCount_error hz).2
  have hsecond := one_le_secondCount hz
  omega

theorem periodCount_pos (hz : UInt32) : 0 < periodCount hz := by
  have hone := one_positive
  have hle := one_le_periodCount hz
  omega

/-! ## 2. Ticks out of a total -/

/-- How often the length of a tick goes into a total. -/
def ticksIn (hz : UInt32) (total : ℕ) : ℕ :=
  double.round (total * double.one) (periodCount hz) / double.one

section

variable {total : ℕ}

theorem ticksIn_error (h : periodCount hz ≤ total) :
    ticksIn hz total * periodCount hz * 2 ^ 53 ≤ total * 2 ^ 53 + total ∧
      total * 2 ^ 53 < (ticksIn hz total + 1) * periodCount hz * 2 ^ 53 + total := by
  have hperiod := periodCount_pos hz
  have hone := two_pow_le_one
  have hnormal : periodCount hz * 2 ^ 52 ≤ total * double.one := Nat.mul_le_mul h (by omega)
  obtain ⟨hup, hdown⟩ := round_error_of_le hperiod hnormal
  unfold ticksIn
  generalize double.round (total * double.one) (periodCount hz) = quotient at hup hdown ⊢
  generalize periodCount hz = p at hperiod hup hdown ⊢
  have hunit := one_positive
  generalize double.one = one at hup hdown hunit ⊢
  have hlow : quotient / one * one ≤ quotient := Nat.div_mul_le_self _ _
  have hhigh : quotient < (quotient / one + 1) * one := 
    (Nat.div_lt_iff_lt_mul hunit).mp (Nat.lt_succ_self _)
  generalize quotient / one = ticks at hlow hhigh ⊢
  constructor
  · refine Nat.le_of_mul_le_mul_right ?_ hunit
    calc ticks * p * 2 ^ 53 * one = ticks * one * (p * 2 ^ 53) := by ring
      _ ≤ quotient * (p * 2 ^ 53) := Nat.mul_le_mul_right _ hlow
      _ = quotient * p * 2 ^ 53 := by ring
      _ ≤ total * one * 2 ^ 53 + total * one := hup
      _ = (total * 2 ^ 53 + total) * one := by ring
  · refine Nat.lt_of_mul_lt_mul_right (a := one) ?_
    calc total * 2 ^ 53 * one = total * one * 2 ^ 53 := by ring
      _ ≤ quotient * p * 2 ^ 53 + total * one := hdown
      _ < (ticks + 1) * one * p * 2 ^ 53 + total * one := by
        have hmul := Nat.mul_lt_mul_of_pos_right hhigh hperiod
        omega
      _ = ((ticks + 1) * p * 2 ^ 53 + total) * one := by ring

theorem one_le_ticksIn (h : periodCount hz ≤ total) : 1 ≤ ticksIn hz total := by
  refine Nat.div_pos ?_ one_positive
  rw [one_eq]
  refine two_pow_le_round (periodCount_pos hz) ?_
  rw [Nat.mul_comm]
  exact Nat.mul_le_mul_right _ h

/-- The quotient has room. -/
theorem round_quotient_lt (h : periodCount hz ≤ total) (hroom : total ≤ 2 ^ 60 * double.one) :
    double.round (total * double.one) (periodCount hz) < double.limit := by
  have hperiod := periodCount_pos hz
  have hone := two_pow_le_one
  have hunit := one_le_periodCount hz
  have hnormal : periodCount hz * 2 ^ 52 ≤ total * double.one := Nat.mul_le_mul h (by omega)
  obtain ⟨hup, -⟩ := round_error_of_le hperiod hnormal
  have hlimit : 2 ^ 70 * double.one ≤ double.limit := two_pow_mul_one_le (by decide)
  refine Nat.lt_of_lt_of_le (Nat.lt_of_mul_lt_mul_right (a := periodCount hz) ?_) hlimit
  have hscaled : total * double.one ≤ total * (61 * periodCount hz) :=
    Nat.mul_le_mul_left total hunit
  have hroom' : total * (61 * periodCount hz) ≤
      2 ^ 60 * double.one * (61 * periodCount hz) := Nat.mul_le_mul_right _ hroom
  have hassoc : 2 ^ 60 * double.one * (61 * periodCount hz) =
      2 ^ 60 * 61 * (double.one * periodCount hz) := by ring
  have hgoal : 2 ^ 70 * double.one * periodCount hz =
      2 ^ 70 * (double.one * periodCount hz) := Nat.mul_assoc _ _ _
  have hpos : 0 < double.one * periodCount hz := Nat.mul_pos one_positive hperiod
  rw [hgoal]
  rw [hassoc] at hroom'
  generalize double.one * periodCount hz = unit at hroom' hpos ⊢
  generalize double.round (total * double.one) (periodCount hz) * periodCount hz = product at hup ⊢
  omega

end

/-! ## 3. An advance -/

/-- The exact total is rounded first. -/
theorem counts_total (hd : Counts d.carried carried) (hcycles : cycles < 2 ^ 53)
    (hroom : |carried + cycles * double.one| ≤ 2 ^ 54 * double.one) :
    Counts (d.carried.add (ofNat cycles)) (nearest (carried + cycles * double.one)) := by
  have hadd := counts_add hd (counts_ofNat hcycles)
  rw [Nat.cast_mul] at hadd
  refine hadd ?_
  have hlimit : ((2 ^ 60 * double.one : ℕ) : ℤ) ≤ double.limit := by
    exact_mod_cast two_pow_mul_one_le (j := 60) (by decide)
  have hone : (0 : ℤ) < double.one := by exact_mod_cast one_positive
  rw [Nat.cast_mul] at hlimit
  push_cast at hlimit
  omega

/-- **A total below the length of a tick** is carried over. -/
theorem advance_of_lt {total : ℤ} (hd : Counts (d.carried.add (ofNat cycles)) total)
    (h : total < periodCount hz) :
    d.advance (ofNat cycles) hz = (0, ⟨d.carried.add (ofNat cycles)⟩) := by
  unfold advance
  dsimp only
  rw [period_eq, lt_eq_of_counts hd, if_pos (decide_eq_true h)]

/-- **Of a larger total** the ticks are taken out. -/
theorem advance_of_le {total : ℕ} (hd : Counts (d.carried.add (ofNat cycles)) total)
    (h : periodCount hz ≤ total) (hroom : total ≤ 2 ^ 60 * double.one) :
    (d.advance (ofNat cycles) hz).1 = min (ticksIn hz total) mostTicks ∧
      Counts (d.advance (ofNat cycles) hz).2.carried
        (nearest (total - nearest (ticksIn hz total * periodCount hz : ℕ))) := by
  have hperiod := periodCount_pos hz
  have hfinite : d.carried.add (ofNat cycles) = finite false total := by
    have heq := hd.eq_finite (by omega)
    rwa [Int.toNat_natCast] at heq
  have hnot : ¬ ((total : ℤ) < periodCount hz) := by omega
  have hfloor : ((finite false total : Binary double).div (finite false (periodCount hz))).floor =
      finite false (ticksIn hz total * double.one) :=
    floor_div_eq hperiod (round_quotient_lt h hroom)
  unfold advance
  dsimp only
  rw [period_eq, lt_eq_of_counts hd, decide_eq_false hnot, if_neg Bool.false_ne_true, hfinite,
    hfloor]
  obtain ⟨hticks, -⟩ := ticksIn_error h
  have hlimit : 2 ^ 70 * double.one ≤ double.limit := two_pow_mul_one_le (by decide)
  have hone := one_positive
  refine ⟨toNatUpTo_whole _ _, ?_⟩
  dsimp only
  have hproduct : Counts ((finite false (ticksIn hz total * double.one)).mul
      (finite false (periodCount hz))) (nearest (ticksIn hz total * periodCount hz : ℕ)) :=
    counts_mul (by omega)
  rw [hfinite] at hd
  refine counts_sub hd hproduct ?_
  obtain ⟨hup, hdown⟩ := nearest_error (ticksIn hz total * periodCount hz : ℕ)
  rw [Nat.abs_cast] at hup hdown
  have habs : |(total : ℤ) - nearest (ticksIn hz total * periodCount hz : ℕ)| ≤ 8 * total := by
    rw [abs_le]
    omega
  omega

/-! ## 4. The balance -/

/-- **Ticks and a rest that make up a total of cycles**, but for the rounding. -/
structure Balanced (hz : UInt32) (total : ℤ) (ticks : ℕ) (rest : ℤ) : Prop where
  /-- Without a tick the total is rounded and carried over. -/
  idle : ticks = 0 → rest = nearest total ∧ rest < periodCount hz
  /-- There is no tick too many. -/
  low : 0 < ticks → -(ticks * periodCount hz : ℤ) ≤ rest * 2 ^ 50
  /-- There is no tick too few. -/
  high : rest * 2 ^ 50 ≤ periodCount hz * 2 ^ 50 + ticks * periodCount hz
  few : (ticks * periodCount hz : ℤ) ≤ 2 * |total|
  balance : |60 * (total - rest) - ticks * secondCount hz| * 2 ^ 49 ≤ (ticks + 1) * secondCount hz
  /-- A power of two that divides both the length of a tick and the total divides the rest. -/
  aligned : ∀ j : ℕ, (2 : ℤ) ^ j ∣ periodCount hz → (2 : ℤ) ^ j ∣ total → (2 : ℤ) ^ j ∣ rest

theorem balanced_of_lt {total : ℤ} (hlow : -(periodCount hz : ℤ) ≤ total)
    (h : nearest total < periodCount hz) : Balanced hz total 0 (nearest total) := by
  obtain ⟨hsecond, hsecond'⟩ := periodCount_error hz
  obtain ⟨hup, hdown⟩ := nearest_error total
  have hsmall : |total| ≤ 2 * periodCount hz := by
    rw [abs_le]
    rcases abs_cases total with ⟨e, -⟩ | ⟨e, -⟩ <;> omega
  refine ⟨fun _ => ⟨rfl, h⟩, fun hticks => absurd hticks (Nat.lt_irrefl 0), ?_, ?_, ?_,
    fun j _ htotal => two_pow_dvd_nearest htotal⟩
  · omega
  · have hnonneg := abs_nonneg total
    push_cast
    omega
  · have hdifference : |60 * (total - nearest total) - 0 * (secondCount hz : ℤ)| ≤
        secondCount hz / 2 ^ 49 := by
      rw [zero_mul, sub_zero, abs_le]
      omega
    push_cast
    omega

theorem balanced_of_le {total : ℤ} {rounded : ℕ} (hrounded : nearest total = rounded)
    (h : periodCount hz ≤ rounded) :
    Balanced hz total (ticksIn hz rounded)
      (nearest (rounded - nearest (ticksIn hz rounded * periodCount hz : ℕ))) := by
  obtain ⟨hticks, hticks'⟩ := ticksIn_error h
  have hone := one_le_ticksIn h
  obtain ⟨hsecond, hsecond'⟩ := periodCount_error hz
  obtain ⟨htotal, htotal'⟩ := nearest_error total
  rw [hrounded] at htotal htotal'
  generalize ticksIn hz rounded = ticks at hticks hticks' hone ⊢
  obtain ⟨hproduct, hproduct'⟩ := nearest_error (ticks * periodCount hz : ℕ)
  rw [Nat.abs_cast] at hproduct hproduct'
  generalize hdrawn : nearest (ticks * periodCount hz : ℕ) = drawn at hproduct hproduct' ⊢
  obtain ⟨hrest, hrest'⟩ := nearest_error (rounded - drawn)
  generalize hleft : nearest ((rounded : ℤ) - drawn) = rest at hrest hrest' ⊢
  have hperiod : periodCount hz ≤ ticks * periodCount hz := Nat.le_mul_of_pos_left _ hone
  obtain ⟨hscaled, hscaled'⟩ := ticks_mul_error hz ticks
  have haligned : ∀ j : ℕ, (2 : ℤ) ^ j ∣ periodCount hz → (2 : ℤ) ^ j ∣ total →
      (2 : ℤ) ^ j ∣ rest := by
    intro j hj htotal
    have hj' : (2 : ℤ) ^ j ∣ (ticks * periodCount hz : ℕ) := by
      rw [Nat.cast_mul]
      exact Dvd.dvd.mul_left hj _
    rw [← hleft, ← hdrawn, ← hrounded]
    exact two_pow_dvd_nearest ((two_pow_dvd_nearest htotal).sub (two_pow_dvd_nearest hj'))
  rw [Nat.succ_mul] at hticks'
  have hsplit : ((ticks : ℤ) + 1) * secondCount hz =
      (ticks * secondCount hz : ℕ) + secondCount hz := by
    push_cast
    ring
  refine ⟨fun hzero => absurd hone (by omega), fun _ => ?_, ?_, ?_, ?_, haligned⟩
  all_goals
    simp only [hsplit, ← Nat.cast_mul]
    -- the products are numbers of their own from here on
    generalize ticks * periodCount hz = due at *
    generalize ticks * secondCount hz = time at *
    generalize periodCount hz = p at *
    generalize secondCount hz = second at *
  · rcases abs_cases ((rounded : ℤ) - drawn) with ⟨e, -⟩ | ⟨e, -⟩ <;> omega
  · rcases abs_cases ((rounded : ℤ) - drawn) with ⟨e, -⟩ | ⟨e, -⟩ <;> omega
  · have hself := le_abs_self total
    omega
  · have hdifference : |60 * (total - rest) - time| ≤ time / 2 ^ 49 := by
      rw [abs_le]
      rcases abs_cases ((rounded : ℤ) - drawn) with ⟨e, -⟩ | ⟨e, -⟩ <;>
        rcases abs_cases total with ⟨e', -⟩ | ⟨e', -⟩ <;> omega
    omega

/-- **Every advance balances.** -/
theorem advance_balanced (hd : Counts d.carried carried) (hcycles : cycles < 2 ^ 53)
    (hlow : -(periodCount hz : ℤ) ≤ carried + cycles * double.one)
    (hhigh : carried + cycles * double.one ≤ 2 ^ 54 * double.one) :
    ∃ ticks rest, (d.advance (ofNat cycles) hz).1 = min ticks mostTicks ∧
      Counts (d.advance (ofNat cycles) hz).2.carried rest ∧
      Balanced hz (carried + cycles * double.one) ticks rest := by
  have hperiod := Nat.le_trans (periodCount_le hz) (secondCount_le hz)
  have hroom : |carried + cycles * double.one| ≤ 2 ^ 54 * double.one := by
    rw [abs_le]
    omega
  have htotal := counts_total hd hcycles hroom
  have herror := nearest_error (carried + cycles * double.one)
  by_cases h : nearest (carried + cycles * double.one) < periodCount hz
  · rw [advance_of_lt htotal h]
    exact ⟨0, _, (Nat.zero_min _).symm, htotal, balanced_of_lt hlow h⟩
  · generalize carried + cycles * double.one = total at hlow hhigh hroom htotal herror h ⊢
    obtain ⟨rounded, hrounded⟩ := Int.eq_ofNat_of_zero_le (show 0 ≤ nearest total by omega)
    have hself := le_abs_self (nearest total - total)
    have hle : periodCount hz ≤ rounded := by omega
    rw [hrounded] at htotal
    obtain ⟨hticks, hrest⟩ := advance_of_le htotal hle (by omega)
    exact ⟨_, _, hticks, hrest, balanced_of_le hrounded hle⟩

/-! ## 5. Clocks whose ticks have a length of few bits -/

/-- **The rounded quotient of numbers of few bits** has the same whole part as the quotient. -/
theorem round_div_one {total length : ℕ} (hlength : 0 < length) (h : length ≤ total)
    (htotal : total < 2 ^ 53) :
    double.round (total * double.one) length / double.one = total / length := by
  have hone := two_pow_le_one
  have hnormal : length * 2 ^ 52 ≤ total * double.one := Nat.mul_le_mul h (by omega)
  obtain ⟨hup, hdown⟩ := round_error_of_le hlength hnormal
  have hsmall : total * double.one < 2 ^ 53 * double.one :=
    Nat.mul_lt_mul_of_pos_right htotal one_positive
  have hsplit := Nat.div_add_mod total length
  have hrest := Nat.mod_lt total hlength
  have hquotient : total / length ≤ total := Nat.div_le_self _ _
  have hfits : Fits (total / length * double.one) := by
    rw [one_eq]
    exact fits_mul_two_pow (by omega) _
  have hexact := round_mul_of_fits hlength hfits
  generalize total / length = quotient at hsplit hquotient hexact ⊢
  generalize total % length = rest at hsplit hrest
  refine Nat.div_eq_of_lt_le ?_ ?_
  · by_cases hzero : rest = 0
    · have htimes : total * double.one = quotient * double.one * length := by
        rw [← hsplit, hzero]
        ring
      rw [htimes, hexact]
    · refine Nat.le_of_mul_le_mul_right ?_ hlength
      have htimes : total * double.one = quotient * double.one * length + rest * double.one := by
        rw [← hsplit]
        ring
      have hpositive : double.one ≤ rest * double.one := Nat.le_mul_of_pos_left _ (by omega)
      omega
  · refine Nat.lt_of_mul_lt_mul_right (a := length) ?_
    have htimes : (quotient + 1) * double.one * length =
        (length * quotient + length) * double.one := by ring
    have hnext : (total + 1) * double.one ≤ (length * quotient + length) * double.one :=
      Nat.mul_le_mul_right _ (by omega)
    rw [htimes]
    rw [Nat.succ_mul] at hnext
    omega

/-- **Nothing is rounded** at a clock whose tick is `length` times a unit, while the cycles are
    multiples of the unit too: the advance is a division with remainder. A unit is one cycle or a
    few halvings of it. -/
theorem advance_exact {exponent length start more : ℕ} (hexponent : exponent ≤ double.scale)
    (hlength : secondCount hz = length * 2 ^ exponent * 60) (hshort : length < 2 ^ 53)
    (hd : Counts d.carried (start * 2 ^ exponent : ℕ)) (hcycles : cycles < 2 ^ 53)
    (hmore : cycles * double.one = more * 2 ^ exponent) (hroom : start + more < 2 ^ 53) :
    (d.advance (ofNat cycles) hz).1 = min ((start + more) / length) mostTicks ∧
      Counts (d.advance (ofNat cycles) hz).2.carried
        ((start + more) % length * 2 ^ exponent : ℕ) := by
  have hunit : 2 ^ exponent ≤ double.one := by
    rw [one_eq]
    exact Nat.pow_le_pow_right (by decide) hexponent
  have hunit' : 0 < 2 ^ exponent := Nat.two_pow_pos _
  have hperiod : periodCount hz = length * 2 ^ exponent := by
    unfold periodCount
    rw [hlength]
    exact round_mul_of_fits (by decide) (fits_mul_two_pow hshort exponent)
  have hlength' : 0 < length := by
    have hpos := periodCount_pos hz
    rw [hperiod] at hpos
    exact Nat.pos_of_mul_pos_right hpos
  have hexact : ∀ {n : ℕ}, n < 2 ^ 53 → nearest (n * 2 ^ exponent : ℕ) = (n * 2 ^ exponent : ℕ) :=
    fun hn => nearest_of_fits (fits_mul_two_pow hn exponent)
  -- the total
  have hsum : ((start * 2 ^ exponent : ℕ) : ℤ) + cycles * double.one =
      ((start + more) * 2 ^ exponent : ℕ) := by
    rw [Nat.add_mul, ← hmore]
    push_cast
    ring
  have hsize : (start + more) * 2 ^ exponent ≤ 2 ^ 53 * double.one :=
    Nat.mul_le_mul (Nat.le_of_lt hroom) hunit
  have htotal := counts_total hd hcycles (by
    rw [hsum, Nat.abs_cast]
    exact_mod_cast Nat.le_trans hsize (Nat.mul_le_mul_right _ (by decide)))
  rw [hsum, hexact hroom] at htotal
  generalize start + more = total at hroom hsize htotal ⊢
  by_cases h : total < length
  · have hlt : ((total * 2 ^ exponent : ℕ) : ℤ) < periodCount hz := by
      rw [hperiod]
      exact_mod_cast Nat.mul_lt_mul_of_pos_right h hunit'
    rw [advance_of_lt htotal hlt, Nat.div_eq_of_lt h, Nat.mod_eq_of_lt h]
    exact ⟨(Nat.zero_min _).symm, htotal⟩
  · have hle : periodCount hz ≤ total * 2 ^ exponent := by
      rw [hperiod]
      exact Nat.mul_le_mul_right _ (Nat.le_of_not_lt h)
    obtain ⟨hticks, hrest⟩ :=
      advance_of_le htotal hle (Nat.le_trans hsize (Nat.mul_le_mul_right _ (by decide)))
    have hcount : ticksIn hz (total * 2 ^ exponent) = total / length := by
      unfold ticksIn
      rw [hperiod, Nat.mul_right_comm, round_mul_right _ _ hunit',
        round_div_one hlength' (Nat.le_of_not_lt h) hroom]
    rw [hcount] at hticks hrest
    refine ⟨hticks, ?_⟩
    have hdrawn : total / length * periodCount hz = total / length * length * 2 ^ exponent := by
      rw [hperiod, Nat.mul_assoc]
    have hbelow : total / length * length ≤ total := Nat.div_mul_le_self _ _
    have hleft : ((total * 2 ^ exponent : ℕ) : ℤ) -
        (total / length * length * 2 ^ exponent : ℕ) = (total % length * 2 ^ exponent : ℕ) := by
      rw [← Nat.cast_sub (Nat.mul_le_mul_right _ hbelow), ← Nat.sub_mul,
        Nat.mod_eq_sub_div_mul]
    rw [hdrawn, hexact (Nat.lt_of_le_of_lt hbelow hroom), hleft,
      hexact (Nat.lt_of_le_of_lt (Nat.mod_le _ _) hroom)] at hrest
    exact hrest

end Chip8.Divider
