/-
  File:      Chip8/Proofs/Divider/Split.lean
  Subject:   cycles fed to a divider in portions, at one clock

  * `Divider.advanceAll`: one advance for each portion;
  * `Spent`: ticks and a rest that make up all the cycles so far. `Spent.balanced` is the step, and
    `advanceAll_spent` the run;
  * `advanceAll_exact`: the run at a clock whose ticks have a length of few bits;
  * `ticks_of_split`: in the end the ticks are as many as are due, or one more or less; where the
    length of a tick is exact they are as many as are due.

  The bound of one is met: `not_always_due` has portions that lose a tick.
-/
import Chip8.Proofs.Divider.Advance

namespace Chip8.Divider

open Numeric Numeric.Format Numeric.Binary

/-- **One advance for each portion** of cycles; the ticks are added up. -/
def advanceAll (d : Divider) (hz : UInt32) : List ℕ → ℕ × Divider
  | [] => (0, d)
  | cycles :: rest =>
    let first := d.advance (ofNat cycles) hz
    let last := first.2.advanceAll hz rest
    (first.1 + last.1, last.2)

variable {hz : UInt32} {cycles ticks more : ℕ} {rest next : ℤ}

/-! ## 1. The grid -/

/-- The exponent of the step of the length of a tick. -/
def grid (hz : UInt32) : ℕ := (secondCount hz / 60).log2 + 1 - 53

theorem grid_dvd_periodCount (hz : UInt32) : 2 ^ grid hz ∣ periodCount hz :=
  step_dvd_round (secondCount hz) 60

/-- The quotient that is rounded to the length of a tick is below this power of two. -/
theorem secondCount_lt (hz : UInt32) :
    secondCount hz < 2 ^ ((secondCount hz / 60).log2 + 1) * 60 := by
  have hquotient : secondCount hz / 60 < 2 ^ ((secondCount hz / 60).log2 + 1) := Nat.lt_log2_self
  omega

theorem periodCount_le_two_pow (hz : UInt32) :
    periodCount hz ≤ 2 ^ ((secondCount hz / 60).log2 + 1) :=
  round_le_two_pow (by decide) (secondCount_lt hz)

theorem grid_le_scale (hz : UInt32) : grid hz ≤ double.scale := by
  have hone := one_le_secondCount hz
  have hpos := two_pow_le_one
  have hne : secondCount hz / 60 ≠ 0 := by omega
  have hlt : secondCount hz / 60 < 2 ^ (32 + double.scale) := by
    have hle := secondCount_le hz
    rw [Nat.pow_add, ← one_eq]
    omega
  have hlog := (Nat.log2_lt hne).mpr hlt
  unfold grid
  omega

/-- **Totals on the grid that make no tick are not rounded.** -/
theorem nearest_of_grid {total : ℤ} (hgrid : (2 : ℤ) ^ grid hz ∣ total)
    (hlow : -(periodCount hz : ℤ) < total) (h : nearest total < periodCount hz) :
    nearest total = total := by
  refine nearest_of_fits ?_
  have hpower := periodCount_le_two_pow hz
  have hsize : total.natAbs < 2 ^ ((secondCount hz / 60).log2 + 1) := by
    by_contra hlarge
    rcases Int.natAbs_eq total with e | e
    · -- rounding would not fall below the power of two
      have hround : 2 ^ ((secondCount hz / 60).log2 + 1) ≤ double.round total.natAbs 1 :=
        two_pow_le_round Nat.one_pos (by omega)
      rw [e, nearest_natCast] at h
      omega
    · omega
  have hnat : 2 ^ grid hz ∣ total.natAbs := by
    have habs := Int.natAbs_dvd_natAbs.mpr hgrid
    rwa [Int.natAbs_pow] at habs
  refine Nat.dvd_trans ?_ hnat
  rw [step_eq]
  refine Nat.pow_dvd_pow 2 ?_
  by_cases hzero : total.natAbs = 0
  · rw [hzero]
    exact Nat.zero_le _
  · have hlog := (Nat.log2_lt hzero).mpr hsize
    unfold grid
    omega

/-! ## 2. Ticks that make up the cycles so far -/

/-- **Ticks and a rest that make up some cycles**, but for the rounding: only advances that tick
    round anything. -/
structure Spent (hz : UInt32) (cycles ticks : ℕ) (rest : ℤ) : Prop where
  balance : |60 * (cycles * double.one - rest) - ticks * secondCount hz| * 2 ^ 48 ≤
    ticks * secondCount hz
  low : -(ticks * periodCount hz : ℤ) ≤ rest * 2 ^ 50
  high : rest * 2 ^ 50 ≤ periodCount hz * 2 ^ 50 + ticks * periodCount hz
  aligned : (2 : ℤ) ^ grid hz ∣ rest

theorem spent_nothing (hz : UInt32) : Spent hz 0 0 0 where
  balance := by
    simp only [Nat.cast_zero, zero_mul, sub_self, mul_zero, abs_zero, le_refl]
  low := by
    simp only [Nat.cast_zero, zero_mul, neg_zero, le_refl]
  high := by
    simp only [Nat.cast_zero, zero_mul, add_zero]
    exact mul_nonneg (Int.natCast_nonneg _) (by decide)
  aligned := Int.dvd_zero _

/-- Cycles that make fewer ticks than there are words make at most so many. -/
theorem Spent.ticks_le (h : Spent hz cycles ticks rest)
    (hdue : 60 * cycles < 2 ^ 32 * max hz.toNat 1) : ticks ≤ 2 ^ 32 := by
  by_contra hmany
  have hone := one_positive
  have hlarge : (2 ^ 32 + 1) * secondCount hz ≤ ticks * secondCount hz :=
    Nat.mul_le_mul_right _ (by omega)
  have hcycles : 60 * (cycles * double.one) < 2 ^ 32 * secondCount hz := by
    unfold secondCount
    calc 60 * (cycles * double.one) = 60 * cycles * double.one := (Nat.mul_assoc _ _ _).symm
      _ < 2 ^ 32 * max hz.toNat 1 * double.one := Nat.mul_lt_mul_of_pos_right hdue hone
      _ = _ := Nat.mul_assoc _ _ _
  have hproduct := (ticks_mul_error hz ticks).1
  have hsecond := one_le_secondCount hz
  obtain ⟨hbalance, hlow, -, -⟩ := h
  have hself := le_abs_self
    (60 * ((cycles : ℤ) * double.one - rest) - ticks * secondCount hz)
  have hself' := neg_abs_le
    (60 * ((cycles : ℤ) * double.one - rest) - ticks * secondCount hz)
  simp only [← Nat.cast_mul] at hbalance hlow hself hself'
  generalize ticks * secondCount hz = time at *
  generalize ticks * periodCount hz = due at *
  generalize cycles * double.one = fed at *
  omega

theorem ticks_mul_nonneg (hz : UInt32) (ticks : ℕ) : 0 ≤ (ticks : ℤ) * periodCount hz :=
  mul_nonneg (Int.natCast_nonneg _) (Int.natCast_nonneg _)

/-- Whole cycles are on the grid. -/
theorem Spent.grid_dvd_total (h : Spent hz cycles ticks rest) (fed : ℕ) :
    (2 : ℤ) ^ grid hz ∣ rest + fed * double.one := by
  refine Int.dvd_add h.aligned (Dvd.dvd.mul_left ?_ _)
  rw [one_eq]
  exact_mod_cast Nat.pow_dvd_pow 2 (grid_le_scale hz)

/-- The cycles so far and the next ones, counted. -/
theorem counted_add (cycles fed : ℕ) : ((cycles + fed : ℕ) : ℤ) * double.one =
    cycles * double.one + fed * double.one := by
  push_cast
  ring

/-- An advance without a tick rounds nothing. -/
theorem Spent.idle (h : Spent hz cycles ticks rest) (hticks : ticks ≤ 2 ^ 33) {fed : ℕ}
    (hnext : next = nearest (rest + fed * double.one)) (hbelow : next < periodCount hz) :
    Spent hz (cycles + fed) ticks next := by
  have htotal := h.grid_dvd_total fed
  obtain ⟨hbalance, hlow, hhigh, -⟩ := h
  have hperiod := periodCount_pos hz
  have hfew : ticks * periodCount hz ≤ 2 ^ 33 * periodCount hz := Nat.mul_le_mul_right _ hticks
  have hfed : 0 ≤ (fed : ℤ) * double.one :=
    mul_nonneg (Int.natCast_nonneg _) (Int.natCast_nonneg _)
  have hexact : next = rest + fed * double.one := by
    rw [hnext] at hbelow ⊢
    refine nearest_of_grid htotal ?_ hbelow
    simp only [← Nat.cast_mul] at hlow ⊢
    generalize ticks * periodCount hz = due at *
    omega
  subst hexact
  refine ⟨?_, ?_, ?_, htotal⟩
  · rw [counted_add, add_sub_add_right_eq_sub]
    exact hbalance
  · omega
  · have hnonneg := ticks_mul_nonneg hz ticks
    omega

/-- An advance with ticks rounds little beside them. -/
theorem Spent.ticked (h : Spent hz cycles ticks rest) {fed : ℕ} (hmore : 0 < more)
    (hb : Balanced hz (rest + fed * double.one) more next) :
    Spent hz (cycles + fed) (ticks + more) next := by
  have htotal := h.grid_dvd_total fed
  obtain ⟨hbalance, hlow, hhigh, -⟩ := h
  obtain ⟨-, hlow', hhigh', -, hbalance', haligned⟩ := hb
  have hperiod : (2 : ℤ) ^ grid hz ∣ periodCount hz := by
    exact_mod_cast grid_dvd_periodCount hz
  have hnonneg := ticks_mul_nonneg hz ticks
  refine ⟨?_, ?_, ?_, haligned _ hperiod htotal⟩
  · have hsplit : 60 * (((cycles + fed : ℕ) : ℤ) * double.one - next) -
        ((ticks + more : ℕ) : ℤ) * secondCount hz =
        60 * (cycles * double.one - rest) - ticks * secondCount hz +
          (60 * (rest + fed * double.one - next) - more * secondCount hz) := by
      rw [counted_add]
      push_cast
      ring
    have htriangle := abs_add_le
      (60 * ((cycles : ℤ) * double.one - rest) - ticks * secondCount hz)
      (60 * (rest + fed * double.one - next) - more * secondCount hz)
    have hone : (1 : ℤ) * secondCount hz ≤ more * secondCount hz := by
      exact_mod_cast Nat.mul_le_mul_right _ hmore
    rw [hsplit]
    push_cast
    rw [add_mul] at hbalance' ⊢
    omega
  · have hlow'' := hlow' hmore
    push_cast
    rw [add_mul]
    omega
  · push_cast
    rw [add_mul]
    omega

/-- **The step**: a balanced advance spends what it is fed. -/
theorem Spent.balanced (h : Spent hz cycles ticks rest) (hticks : ticks ≤ 2 ^ 33) {fed : ℕ}
    (hb : Balanced hz (rest + fed * double.one) more next) :
    Spent hz (cycles + fed) (ticks + more) next := by
  rcases Nat.eq_zero_or_pos more with rfl | hmore
  · obtain ⟨hnext, hbelow⟩ := hb.idle rfl
    exact h.idle hticks hnext hbelow
  · exact h.ticked hmore hb

/-- **The run.** One call reports no more than `mostTicks`, so what is reported may fall short of
    the ticks that are spent. -/
theorem advanceAll_spent {d : Divider} (hd : Counts d.carried rest)
    (h : Spent hz cycles ticks rest) (portions : List ℕ)
    (hroom : cycles + portions.sum < 2 ^ 53)
    (hdue : 60 * (cycles + portions.sum) < 2 ^ 32 * max hz.toNat 1) :
    ∃ spent last, Spent hz (cycles + portions.sum) (ticks + spent) last ∧
      (d.advanceAll hz portions).1 ≤ spent ∧
      min spent mostTicks ≤ (d.advanceAll hz portions).1 := by
  induction portions generalizing d cycles ticks rest with
  | nil => exact ⟨0, rest, h, Nat.le_refl _, Nat.min_le_left _ _⟩
  | cons fed portions ih =>
    rw [List.sum_cons, ← Nat.add_assoc] at hroom hdue ⊢
    have hticks := h.ticks_le (by omega)
    have hone := two_pow_le_one
    have hperiod := periodCount_pos hz
    have hscaled : ticks * periodCount hz ≤ 2 ^ 32 * periodCount hz := Nat.mul_le_mul_right _ hticks
    have hfed : fed * double.one ≤ 2 ^ 53 * double.one := Nat.mul_le_mul_right _ (by omega)
    have hlength := Nat.le_trans (periodCount_le hz) (secondCount_le hz)
    have hlow : -(periodCount hz : ℤ) ≤ rest + fed * double.one := by
      have hlow' := h.low
      simp only [← Nat.cast_mul] at hlow' ⊢
      omega
    have hhigh : rest + fed * double.one ≤ 2 ^ 54 * double.one := by
      have hhigh' := h.high
      simp only [← Nat.cast_mul] at hhigh' ⊢
      omega
    obtain ⟨more, next, hreported, hnext, hbalanced⟩ :=
      advance_balanced hd (by omega : fed < 2 ^ 53) hlow hhigh
    obtain ⟨spent, last, hspent, hle, hge⟩ :=
      ih hnext (h.balanced (by omega) hbalanced) hroom hdue
    refine ⟨more + spent, last, ?_, ?_, ?_⟩
    · rw [← Nat.add_assoc ticks]
      exact hspent
    · show (d.advance (ofNat fed) hz).1 + _ ≤ _
      omega
    · show _ ≤ (d.advance (ofNat fed) hz).1 + _
      omega

/-- **What is spent is what is due**, but for one tick. -/
theorem Spent.near (h : Spent hz cycles ticks rest) (hticks : ticks ≤ 2 ^ 32) :
    ticks * max hz.toNat 1 < 60 * cycles + max hz.toNat 1 ∧
      60 * cycles < ticks * max hz.toNat 1 + 2 * max hz.toNat 1 := by
  have hone := one_positive
  have hfew : ticks * secondCount hz ≤ 2 ^ 32 * secondCount hz := Nat.mul_le_mul_right _ hticks
  obtain ⟨hproduct, -⟩ := ticks_mul_error hz ticks
  obtain ⟨hperiod, -⟩ := periodCount_error hz
  have hsecond := one_le_secondCount hz
  obtain ⟨hbalance, hlow, hhigh, -⟩ := h
  have hself := le_abs_self (60 * ((cycles : ℤ) * double.one - rest) - ticks * secondCount hz)
  have hself' := neg_abs_le (60 * ((cycles : ℤ) * double.one - rest) - ticks * secondCount hz)
  have hcounted : ticks * secondCount hz < 60 * (cycles * double.one) + secondCount hz ∧
      60 * (cycles * double.one) < ticks * secondCount hz + 2 * secondCount hz := by
    simp only [← Nat.cast_mul] at hbalance hlow hhigh hself hself'
    generalize ticks * secondCount hz = time at *
    generalize ticks * periodCount hz = due at *
    generalize cycles * double.one = fed at *
    generalize periodCount hz = p at *
    constructor <;> omega
  unfold secondCount at hcounted
  constructor
  · refine Nat.lt_of_mul_lt_mul_right (a := double.one) ?_
    calc ticks * max hz.toNat 1 * double.one = ticks * (max hz.toNat 1 * double.one) := by ring
      _ < 60 * (cycles * double.one) + max hz.toNat 1 * double.one := hcounted.1
      _ = _ := by ring
  · refine Nat.lt_of_mul_lt_mul_right (a := double.one) ?_
    calc 60 * cycles * double.one = 60 * (cycles * double.one) := Nat.mul_assoc _ _ _
      _ < ticks * (max hz.toNat 1 * double.one) + 2 * (max hz.toNat 1 * double.one) := hcounted.2
      _ = _ := by ring

/-! ## 3. Clocks whose ticks have a length of few bits -/

/-- **The run at such a clock** is a division: `parts` is how many units make a cycle. -/
theorem advanceAll_exact {exponent length parts : ℕ} (hexponent : exponent ≤ double.scale)
    (hlength : secondCount hz = length * 2 ^ exponent * 60) (hshort : length < 2 ^ 53)
    (hparts : double.one = parts * 2 ^ exponent) {d : Divider} {start : ℕ}
    (hd : Counts d.carried (start * 2 ^ exponent : ℕ)) (hstart : start < length) {portions : List ℕ}
    (hcycles : portions.sum < 2 ^ 53) (hroom : start + parts * portions.sum < 2 ^ 53)
    (hfew : (start + parts * portions.sum) / length ≤ mostTicks) :
    (d.advanceAll hz portions).1 = (start + parts * portions.sum) / length := by
  induction portions generalizing d start with
  | nil =>
    rw [List.sum_nil, Nat.mul_zero, Nat.add_zero, Nat.div_eq_of_lt hstart]
    rfl
  | cons fed portions ih =>
    rw [List.sum_cons] at hcycles
    rw [List.sum_cons, Nat.mul_add, ← Nat.add_assoc] at hroom hfew ⊢
    have hmore : fed * double.one = parts * fed * 2 ^ exponent := by
      rw [hparts]
      ring
    obtain ⟨hticks, hnext⟩ := advance_exact hexponent hlength hshort hd
      (by omega : fed < 2 ^ 53) hmore (by omega)
    generalize start + parts * fed = total at hroom hfew hticks hnext ⊢
    have hpositive : 0 < length := by omega
    -- the quotients of the portions add up to the quotient of the sum
    have hquotient : total / length + (total % length + parts * portions.sum) / length =
        (total + parts * portions.sum) / length := by
      have hsplit : total + parts * portions.sum =
          length * (total / length) + (total % length + parts * portions.sum) := by
        have hmod := Nat.div_add_mod total length
        omega
      rw [hsplit, Nat.mul_add_div hpositive]
    have hrest := ih hnext (Nat.mod_lt _ hpositive) (by omega)
      (by have hle := Nat.mod_le total length; omega) (by omega)
    show (d.advance (ofNat fed) hz).1 + _ = _
    rw [hticks, hrest, Nat.min_eq_left (by omega), hquotient]

/-! ## 4. Ticks for portions -/

/-- **The ticks do not depend on the portions, but for one.** Feed a fresh divider portions of
    cycles at one clock: in the end it has reported the ticks that are due for all the cycles, or
    one more or less. Where the length of a tick is a whole number of cycles, of half cycles or of
    quarters, it has reported exactly those. -/
theorem ticks_of_split (hhz : 1 ≤ hz.toNat) {portions : List ℕ} (hroom : portions.sum < 2 ^ 53)
    (hdue : 60 * portions.sum < 2 ^ 32 * hz.toNat) :
    let ticks := (fresh.advanceAll hz portions).1
    let due := 60 * portions.sum / hz.toNat
    due ≤ ticks + 1 ∧ ticks ≤ due + 1 ∧
      ∀ halvings ≤ 2, 60 ∣ 2 ^ halvings * hz.toNat → 2 ^ halvings * portions.sum < 2 ^ 53 →
        ticks = due := by
  intro ticks due
  have hclock : max hz.toNat 1 = hz.toNat := Nat.max_eq_left hhz
  have hfew : due < 2 ^ 32 := (Nat.div_lt_iff_lt_mul hhz).mpr hdue
  have hsum : 60 * portions.sum < (due + 1) * hz.toNat :=
    (Nat.div_lt_iff_lt_mul hhz).mp (Nat.lt_succ_self _)
  have hsum' : due * hz.toNat ≤ 60 * portions.sum := Nat.div_mul_le_self _ _
  obtain ⟨spent, rest, hspent, hle, hge⟩ :=
    advanceAll_spent (d := fresh) counts_zero (spent_nothing hz) portions
      (by rwa [Nat.zero_add]) (by rwa [Nat.zero_add, hclock])
  rw [Nat.zero_add, Nat.zero_add] at hspent
  have hmany := hspent.ticks_le (by rwa [hclock])
  obtain ⟨hnear, hnear'⟩ := hspent.near hmany
  rw [hclock] at hnear hnear'
  have habove : spent ≤ due + 1 := by
    have hlt : spent * hz.toNat < (due + 2) * hz.toNat := by
      rw [Nat.add_mul] at hsum ⊢
      omega
    exact Nat.le_of_lt_succ (Nat.lt_of_mul_lt_mul_right hlt)
  have hbelow : due ≤ spent + 1 := by
    have hlt : due * hz.toNat < (spent + 2) * hz.toNat := by
      rw [Nat.add_mul]
      omega
    exact Nat.le_of_lt_succ (Nat.lt_of_mul_lt_mul_right hlt)
  refine ⟨?_, Nat.le_trans hle habove, ?_⟩
  · have hmost : mostTicks = 2 ^ 32 - 1 := rfl
    show due ≤ (fresh.advanceAll hz portions).1 + 1
    omega
  · rintro halvings hhalvings ⟨length, hlength⟩ hparts
    have hword := hz.toNat_lt
    have hpower : 2 ^ halvings ≤ 2 ^ 2 := Nat.pow_le_pow_right (by decide) hhalvings
    have hscale : halvings ≤ double.scale := Nat.le_trans hhalvings (by decide)
    have hone : double.one = 2 ^ halvings * 2 ^ (double.scale - halvings) := by
      rw [one_eq, ← Nat.pow_add, Nat.add_sub_cancel' hscale]
    have hsecond : secondCount hz = length * 2 ^ (double.scale - halvings) * 60 := by
      unfold secondCount
      rw [hclock, hone, ← Nat.mul_assoc, Nat.mul_comm hz.toNat, hlength]
      ring
    have hshort : length < 2 ^ 53 := by
      have hbound : 2 ^ halvings * hz.toNat ≤ 2 ^ 2 * 2 ^ 32 :=
        Nat.mul_le_mul hpower (Nat.le_of_lt hword)
      omega
    have hpositive : 0 < length := by
      have hpos : 0 < 2 ^ halvings * hz.toNat := Nat.mul_pos (Nat.two_pow_pos _) hhz
      omega
    -- the units of all the cycles, divided by those of a tick
    have hquotient : (0 + 2 ^ halvings * portions.sum) / length = due := by
      show _ = 60 * portions.sum / hz.toNat
      rw [Nat.zero_add, ← Nat.mul_div_mul_left _ length (by decide : 0 < 60), ← hlength,
        Nat.mul_left_comm, Nat.mul_div_mul_left _ _ (Nat.two_pow_pos halvings)]
    have hzero : Counts fresh.carried (0 * 2 ^ (double.scale - halvings) : ℕ) := by
      rw [Nat.zero_mul]
      exact counts_zero
    have hexact := advanceAll_exact (Nat.sub_le _ _) hsecond hshort hone hzero hpositive hroom
      (by rwa [Nat.zero_add]) (by
        have hmost : mostTicks = 2 ^ 32 - 1 := rfl
        omega)
    rw [hquotient] at hexact
    exact hexact

/-- Twenty cycles are two ticks at six hundred hertz, where a tick is ten cycles long. -/
theorem ticks_of_twenty :
    1 ≤ (600 : UInt32).toNat ∧ [9, 0, 3, 8].sum < 2 ^ 53 ∧
      60 * [9, 0, 3, 8].sum < 2 ^ 32 * (600 : UInt32).toNat ∧
      60 ∣ 2 ^ 0 * (600 : UInt32).toNat ∧ (fresh.advanceAll 600 [9, 0, 3, 8]).1 = 2 := by
  have hhz : 1 ≤ (600 : UInt32).toNat := by decide
  have hroom : [9, 0, 3, 8].sum < 2 ^ 53 := by decide
  have hdue : 60 * [9, 0, 3, 8].sum < 2 ^ 32 * (600 : UInt32).toNat := by decide
  have hwhole : 60 ∣ 2 ^ 0 * (600 : UInt32).toNat := by decide
  obtain ⟨-, -, hexact⟩ := ticks_of_split hhz hroom hdue
  have hticks := hexact 0 (by decide) hwhole (by decide)
  exact ⟨hhz, hroom, hdue, hwhole, hticks⟩

/-- **A tick can be lost in the portions**: of five cycles at a hundred hertz, which are three ticks
    when they are fed at once, two ticks are left when they are fed one by one. -/
theorem not_always_due :
    ¬ ∀ (hz : UInt32) (portions : List ℕ), 1 ≤ hz.toNat → portions.sum < 2 ^ 53 →
      60 * portions.sum < 2 ^ 32 * hz.toNat →
        (fresh.advanceAll hz portions).1 = 60 * portions.sum / hz.toNat := by
  intro h
  have hsingly : (fresh.advanceAll 100 [1, 1, 1, 1, 1]).1 = 2 := by decide +kernel
  have hthree := h 100 [1, 1, 1, 1, 1] (by decide) (by decide) (by decide)
  rw [hsingly] at hthree
  exact absurd hthree (by decide)

/-- Fed at once the five cycles are three ticks. -/
example : (fresh.advanceAll 100 [5]).1 = 3 := by decide +kernel

end Chip8.Divider
