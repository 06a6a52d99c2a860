/-
  File:      Chip8/Timer.lean
  Subject:   a timer of eight bits that counts down to zero
-/
namespace Chip8

/-- A timer and what is left on it. -/
@[ext] structure Timer where
  count : UInt8

namespace Timer

def zero : Timer := ⟨0⟩

/-- How often a second timers count down. -/
def ticksPerSecond : Nat := 60

/-- One tick: the timer counts down unless it is zero. -/
def tick (t : Timer) : Timer := if t.count = 0 then t else ⟨t.count - 1⟩

/-- Whether the next tick makes the timer run out. -/
def expires (t : Timer) : Bool := t.count == 1

@[simp] theorem tick_zero : zero.tick = zero := rfl

theorem toNat_count_tick (t : Timer) : t.tick.count.toNat = t.count.toNat - 1 := by
  unfold tick
  split
  · simp_all
  · rename_i h
    have h1 : 1 ≤ t.count := by
      rw [UInt8.le_iff_toNat_le]
      have : t.count.toNat ≠ 0 := fun e => h (UInt8.toNat_inj.mp e)
      simp; omega
    exact UInt8.toNat_sub_of_le _ _ h1

end Timer

end Chip8
