/-
  File:      Chip8/Divider.lean
  Subject:   timer ticks out of elapsed cycles

  At a clock of `hz` cycles a second a tick is due every `hz / 60` cycles. Cycles that do not
  make a tick are carried over, as a number of cycles, to the next call.
-/
import Chip8.Numeric.Binary
import Chip8.Timer

namespace Chip8

open Numeric

/-- A number of cycles. -/
abbrev Cycles := Binary .double

/-- The cycles carried over. -/
@[ext] structure Divider where
  carried : Cycles
  deriving DecidableEq

namespace Divider

def fresh : Divider := ⟨Binary.zero⟩

/-- The largest number of ticks one call reports. -/
def mostTicks : Nat := 4294967295

/-- The cycles of one tick at a clock; a clock of zero counts as one. -/
def period (hz : UInt32) : Cycles :=
  (Binary.ofNat (max hz.toNat 1)).div (Binary.ofNat Timer.ticksPerSecond)

/-- **The ticks due after some more cycles, and what is carried over then.** -/
def advance (d : Divider) (cycles : Cycles) (hz : UInt32) : Nat × Divider :=
  let total := d.carried.add cycles
  if total.lt (period hz) then (0, ⟨total⟩)
  else
    let ticks := (total.div (period hz)).floor
    (ticks.toNatUpTo mostTicks, ⟨total.sub (ticks.mul (period hz))⟩)

/-- The same advance made `times` times; the ticks are added up. -/
def advanceRepeatedly (d : Divider) (cycles : Cycles) (hz : UInt32) : Nat → Nat × Divider
  | 0 => (0, d)
  | times + 1 =>
    let (ticks, next) := d.advance cycles hz
    let (rest, last) := next.advanceRepeatedly cycles hz times
    (ticks + rest, last)

end Divider

end Chip8
