/-
  File:      Chip8/Sound/Sample.lean
  Subject:   samples in the formats of sound devices

  * `SampleFormat.convert`: a sample of single precision in another format. The whole range of an
    integer format stands for -1 to 1; what lies outside is cut;
  * `interleave`: a buffer of a device with several channels, one value for each frame.
-/
import Chip8.Numeric.Binary

namespace Chip8

open Numeric

/-- How many bits an integer sample has. -/
inductive SampleWidth where
  | bits8
  | bits16
  | bits32
  | bits64
  deriving DecidableEq

def SampleWidth.bits : SampleWidth → Nat
  | .bits8 => 8
  | .bits16 => 16
  | .bits32 => 32
  | .bits64 => 64

/-- Half of the range of an integer sample. -/
def SampleWidth.half (w : SampleWidth) : Nat := Nat.pow 2 (w.bits - 1)

/-- A format of samples. -/
inductive SampleFormat where
  | signed (width : SampleWidth)
  | unsigned (width : SampleWidth)
  | single
  | double
  deriving DecidableEq

/-- A sample of a device. -/
inductive Sample where
  | whole (value : Int)
  | single (value : Binary .single)
  | double (value : Binary .double)
  deriving DecidableEq

/-- A value on the scale of a signed sample. -/
def SampleWidth.signed (w : SampleWidth) (value : Binary .single) : Int :=
  value.scaledInto w.half (-w.half) (w.half - 1)

/-- **A value in a format.** An unsigned sample is the signed one moved up by half the range. -/
def SampleFormat.convert (value : Binary .single) : SampleFormat → Sample
  | .signed w => .whole (w.signed value)
  | .unsigned w => .whole (w.signed value + w.half)
  | .single => .single value
  | .double => .double value.widen

/-- How many frames a buffer of so many samples takes; a last, shorter frame counts. -/
def frameCount (channels samples : Nat) : Nat := (samples + channels - 1) / channels

/-- A buffer of so many samples: every sample of a frame has the frame's value, and frames past the
    end of the values are silent. -/
def interleave (format : SampleFormat) (channels samples : Nat) (values : Array (Binary .single)) :
    List Sample :=
  (List.range samples).map fun i => format.convert (values.getD (i / channels) Binary.zero)

end Chip8
