/-
  File:      Chip8/Sound/Oscillator.lean
  Subject:   a sine of a frequency at a sampling rate

  The clock of an oscillator counts samples and starts again at the rate, so it shows the place
  within a second. All arithmetic is of single precision, one rounding for each operation.
-/
import Chip8.Numeric.Binary

namespace Chip8

open Numeric

/-- A number of single precision. -/
abbrev Single := Binary .single

/-- A source of a sine. -/
structure Oscillator where
  /-- Samples a second. -/
  rate : Single
  /-- Oscillations a second. -/
  frequency : Single
  /-- Samples since the second began. -/
  clock : Single

namespace Oscillator

def initial (rate frequency : Nat) : Oscillator := ⟨.ofNat rate, .ofNat frequency, .zero⟩

/-- Half of the circumference of the unit circle. -/
def pi : Single := .ofBits 0x40490FDB

/-- The angle the oscillator has come to. -/
def angle (o : Oscillator) : Single :=
  (((o.clock.mul o.frequency).mul (.ofNat 2)).mul pi).div o.rate

def sine (angle : Single) : Single :=
  .ofBits (Float32.ofBits (UInt32.ofNat angle.toBits)).sin.toBits.toNat

def advance (o : Oscillator) : Oscillator :=
  { o with clock := (o.clock.add (.ofNat 1)).rem o.rate }

/-- The next samples, behind those made before, and the oscillator after them. -/
def generateInto (made : Array Single) (o : Oscillator) : Nat → Array Single × Oscillator
  | 0 => (made, o)
  | count + 1 =>
    let next := o.advance
    generateInto (made.push (sine next.angle)) next count

/-- The next samples, and the oscillator after them. -/
def generate (o : Oscillator) (count : Nat) : Array Single × Oscillator :=
  generateInto #[] o count

end Oscillator

end Chip8
