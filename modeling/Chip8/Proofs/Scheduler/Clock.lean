/-
  File:      Chip8/Proofs/Scheduler/Clock.lean
  Subject:   the clock of a scheduler is told by the changes the host made of it

  * `ClockChange`: another clock, twice the clock or half of it; `afterChange`: what each makes of
    a clock as a whole number;
  * `clock_after_of_none`: nothing else that happens touches the clock, `clock_afterAll`: so behind
    a history it is what the changes among it make of it;
  * `afterChanges_double`, `afterChanges_halve`: doubled or halved any number of times, it is held
    within its bounds once, at the end;
  * `clock_told_by_changes`: all of this together.
-/
import Chip8.Proofs.Scheduler.Control
import Mathlib.Algebra.Ring.Nat

namespace Chip8

/-! ## 1. Changes of a clock -/

/-- What the host can make of the clock. -/
inductive ClockChange where
  | set (hz : UInt32)
  | double
  | halve
  deriving DecidableEq

def ClockChange.operation : ClockChange → Scheduler.Operation
  | .set hz => .setClock hz
  | .double => .doubleClock
  | .halve => .halveClock

namespace Scheduler

/-- What a change makes of a clock within its bounds. A clock that is doubled can only become too
    fast, and one that is halved only too slow. -/
def afterChange (clock : Nat) : ClockChange → Nat
  | .set hz => min (max hz.toNat 1) 1000000000
  | .double => min (2 * clock) 1000000000
  | .halve => max (clock / 2) 1

def afterChanges (clock : Nat) (changes : List ClockChange) : Nat := changes.foldl afterChange clock

/-- The change of the clock that a happening is, if it is one. -/
def clockChange? : Happening → Option ClockChange
  | .operate (.setClock hz) => some (.set hz)
  | .operate .doubleClock => some .double
  | .operate .halveClock => some .halve
  | _ => none

/-- The changes of the clock among what has happened, in order. -/
def clockChanges (history : List Happening) : List ClockChange := history.filterMap clockChange?

theorem eq_operation_of_clockChange? {happening : Happening} {change : ClockChange}
    (h : clockChange? happening = some change) : happening = .operate change.operation := by
  unfold clockChange? at h
  split at h <;> cases h <;> rfl

/-! ## 2. Many changes at once -/

variable {clock : Nat}

theorem afterChanges_concat (clock : Nat) (changes : List ClockChange) (change : ClockChange) :
    afterChanges clock (changes ++ [change]) = afterChange (afterChanges clock changes) change :=
  List.foldl_append

/-- **Doubled any number of times**, a clock is held below the fastest once, at the end. -/
theorem afterChanges_double (h : clock ≤ 1000000000) (n : Nat) :
    afterChanges clock (List.replicate n .double) = min (clock * 2 ^ n) 1000000000 := by
  induction n with
  | zero =>
    rw [Nat.pow_zero, Nat.mul_one]
    exact (Nat.min_eq_left h).symm
  | succ n ih =>
    -- a clock that was too fast once stays too fast when it is doubled
    rw [List.replicate_succ', afterChanges_concat, ih, afterChange, Nat.pow_succ, ← Nat.mul_assoc]
    omega

/-- **Halved any number of times**, a clock is held above zero once, at the end. -/
theorem afterChanges_halve (h : 1 ≤ clock) (n : Nat) :
    afterChanges clock (List.replicate n .halve) = max (clock / 2 ^ n) 1 := by
  induction n with
  | zero =>
    rw [Nat.pow_zero, Nat.div_one]
    exact (Nat.max_eq_left h).symm
  | succ n ih =>
    -- what is left of a clock that was too slow once is nothing, and half of one is nothing too
    rw [List.replicate_succ', afterChanges_concat, ih, afterChange, Nat.pow_succ,
      ← Nat.div_div_eq_div_mul]
    omega

/-! ## 3. One happening -/

variable {s : Scheduler}

theorem InOrder.clock_bounds (h : s.InOrder) :
    1 ≤ s.controls.clock.toNat ∧ s.controls.clock.toNat ≤ 1000000000 :=
  ⟨UInt32.le_iff_toNat_le.mp h.clock_ge, UInt32.le_iff_toNat_le.mp h.clock_le⟩

/-- **Nothing is lost in doubling** a clock within its bounds: there is room for twice the
    fastest. -/
theorem toNat_twice {hz : UInt32} (h : hz.toNat ≤ 1000000000) :
    (Controls.twice hz).toNat = 2 * hz.toNat := by
  rw [Controls.twice, UInt32.toNat_ofNat']
  omega

/-- **A change of the clock** in a scheduler in order. -/
theorem clock_afterChange (h : s.InOrder) (change : ClockChange) :
    (s.afterOperation change.operation).controls.clock.toNat =
      afterChange s.controls.clock.toNat change := by
  obtain ⟨hge, hle⟩ := h.clock_bounds
  cases change with
  | set hz => exact toNat_clampClock hz
  | double =>
    show (clampClock (Controls.twice s.controls.clock)).toNat = min _ _
    rw [toNat_clampClock, toNat_twice hle]
    omega
  | halve =>
    show (clampClock (s.controls.clock / 2)).toNat = max _ _
    rw [toNat_clampClock, UInt32.toNat_div]
    show min (max (s.controls.clock.toNat / 2) 1) 1000000000 = _
    omega

theorem clock_afterThread (s : Scheduler) (move : ThreadMove) :
    (s.afterThread move).controls.clock = s.controls.clock := by
  unfold afterThread
  split
  · cases move with
    | take => rfl
    | single hz => rfl
    | burst hz steps cycles =>
      dsimp only [afterMoveOf]
      split <;> rfl
  · rfl

/-- **What is no change of the clock leaves it alone**: loading, starting, halting and pausing, keys
    and pictures, and every move of the thread. -/
theorem clock_after_of_none (s : Scheduler) {happening : Happening}
    (h : clockChange? happening = none) :
    (s.after happening).controls.clock = s.controls.clock := by
  match happening with
  | .operate .start =>
    show s.start.controls.clock = _
    rw [controls_start]
  | .operate .halt =>
    show s.halt.1.controls.clock = _
    rw [controls_halt]
  | .operate (.load program) =>
    show (s.afterOperation (.load program)).controls.clock = _
    rw [afterOperation_load, controls_load]
  | .operate .togglePause =>
    show (s.afterOperation .togglePause).controls.clock = _
    rw [afterOperation_togglePause]
    cases hpaused : s.controls.paused <;> rfl
  | .operate .pause | .operate .resume | .operate .requestStep | .operate (.press _)
  | .operate (.release _) | .operate (.takeFrame _) | .operate .snapshot | .operate .dump => rfl
  | .operate (.setClock _) | .operate .doubleClock | .operate .halveClock => cases h
  | .thread move => exact s.clock_afterThread move

/-! ## 4. Histories -/

/-- **The clock behind a history** is what the changes among it make of the clock before. -/
theorem clock_afterAll (h : s.InOrder) (history : List Happening) :
    (s.afterAll history).controls.clock.toNat =
      afterChanges s.controls.clock.toNat (clockChanges history) := by
  induction history generalizing s with
  | nil => rfl
  | cons first rest ih =>
    show ((s.after first).afterAll rest).controls.clock.toNat = _
    rw [ih (inOrder_after h first)]
    cases hchange : clockChange? first with
    | none =>
      rw [s.clock_after_of_none hchange, clockChanges, clockChanges,
        List.filterMap_cons_none hchange]
    | some change =>
      have hfirst : (s.after first).controls.clock.toNat =
          afterChange s.controls.clock.toNat change := by
        rw [eq_operation_of_clockChange? hchange]
        exact clock_afterChange h change
      rw [hfirst, clockChanges, clockChanges, List.filterMap_cons_some hchange]
      rfl

/-- **The clock is told by its changes.** A new scheduler has the clock it was given, held within
    its bounds. Take one behind any history, at a clock of `c`. Doubled `n` times it is at
    `c * 2 ^ n`, or at the fastest clock if that is less, and halved `n` times at `c / 2 ^ n`, or at
    one, whatever else host and thread do in between. It can be set to any number, held within the
    bounds. The host is told the clock that each change leaves, neither twice nor half of a clock
    is cut to 32 bits, and nothing but these three changes touches it. -/
theorem clock_told_by_changes (machine : Machine) (clock : UInt32) (sink : Sink)
    (history : List Happening) :
    let first := ofMachine machine clock sink
    let s := first.afterAll history
    let c := s.controls.clock.toNat
    first.controls.clock.toNat = min (max clock.toNat 1) 1000000000 ∧
    (∀ n later, clockChanges later = List.replicate n .double →
      (s.afterAll later).controls.clock.toNat = min (c * 2 ^ n) 1000000000) ∧
    (∀ n later, clockChanges later = List.replicate n .halve →
      (s.afterAll later).controls.clock.toNat = max (c / 2 ^ n) 1) ∧
    (∀ hz, (s.afterOperation (.setClock hz)).controls.clock.toNat =
      min (max hz.toNat 1) 1000000000) ∧
    (∀ change : ClockChange, ∃ hz, (s.perform change.operation).answer = .clock hz ∧
      (s.afterOperation change.operation).controls.clock = hz ∧ hz.toNat = afterChange c change) ∧
    (2 * c < 2 ^ 32 ∧ (Controls.twice s.controls.clock).toNat = 2 * c ∧
      (s.controls.clock / 2).toNat = c / 2) ∧
    ∀ happening, clockChange? happening = none →
      (s.after happening).controls.clock = s.controls.clock := by
  intro first s c
  have hs : s.InOrder := inOrder_afterAll (inOrder_ofMachine machine clock sink) history
  obtain ⟨hge, hle⟩ := hs.clock_bounds
  refine ⟨toNat_clampClock clock, ?_, ?_, toNat_clampClock, ?_, ⟨?_, toNat_twice hle, ?_⟩,
    fun _ => s.clock_after_of_none⟩
  · intro n later hlater
    rw [clock_afterAll hs, hlater]
    exact afterChanges_double hle n
  · intro n later hlater
    rw [clock_afterAll hs, hlater]
    exact afterChanges_halve hge n
  · intro change
    refine ⟨_, ?_, rfl, clock_afterChange hs change⟩
    cases change <;> rfl
  · omega
  · exact UInt32.toNat_div _ _

/-- The clock is doubled twice, while the thread is started, runs a burst and is paused. -/
def hurry : List Happening :=
  [.operate .start, .operate .doubleClock, .thread (.burst 600000000 3 Numeric.Binary.zero),
    .operate .pause, .operate .doubleClock]

/-- The second time there is no room for twice the clock. -/
theorem clock_hurried :
    clockChanges hurry = List.replicate 2 .double ∧
      ((ofMachine (.ofSeed 7) 300000000 .handOn).afterAll hurry).controls.clock.toNat =
        1000000000 := by
  have hchanges : clockChanges hurry = List.replicate 2 .double := rfl
  have hclock := (clock_told_by_changes (.ofSeed 7) 300000000 .handOn []).2.1 2 hurry hchanges
  exact ⟨hchanges, hclock.trans rfl⟩

end Scheduler

end Chip8
