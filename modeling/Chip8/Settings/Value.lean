/-
  File:      Chip8/Settings/Value.lean
  Subject:   the text of a colour, a scale and a clock

  * `readColour`: six hexadecimal digits, two for each channel, behind at most one `#`;
  * `readScale`: a number that is one of the scales;
  * `readClock`: a number from one to the fastest clock.
-/
import Chip8.Settings
import Chip8.Text.Numeral

namespace Chip8.Settings

/-- Why a text is no colour, scale or clock. -/
inductive ValueRefusal where
  | notAColour (text : String)
  | notANumber (text : String)
  | unknownScale
  | noClock (reason : Numeral.Refusal)
  | clockTooSlow
  | clockTooFast
  deriving DecidableEq

def ValueRefusal.message : ValueRefusal → String
  | .notAColour text => "expected a colour as RRGGBB, got '" ++ text ++ "'"
  | .notANumber text => "'" ++ text ++ "' is not a number"
  | .unknownScale =>
    "scale must be one of [" ++ ", ".intercalate (scales.map toString) ++ "]"
  | .noClock reason => reason.message
  | .clockTooSlow => "clock must be at least 1 Hz"
  | .clockTooFast => "clock must be at most " ++ toString maxClock.toNat ++ " Hz"

/-- A text without the `#` it may begin with. -/
def withoutHash : List Char → List Char
  | '#' :: rest => rest
  | text => text

/-- The colour a text denotes. -/
def readColour (text : String) : Except ValueRefusal Colour :=
  match Numeral.hexDigits? (withoutHash text.toList) with
  | some [r1, r0, g1, g0, b1, b0] =>
    .ok (Colour.ofChannels (UInt8.ofNat (r1 * 16 + r0)) (UInt8.ofNat (g1 * 16 + g0))
      (UInt8.ofNat (b1 * 16 + b0)))
  | _ => .error (.notAColour text)

/-- The scale a text denotes. -/
def readScale (text : String) : Except ValueRefusal Nat :=
  match Numeral.read 0x10000000000000000 text with
  | .error _ => .error (.notANumber text)
  | .ok scale => if scale ∈ scales then .ok scale else .error .unknownScale

/-- The clock a text denotes. -/
def readClock (text : String) : Except ValueRefusal UInt32 :=
  match Numeral.read 0x100000000 text with
  | .error reason => .error (.noClock reason)
  | .ok hz =>
    if hz = 0 then .error .clockTooSlow
    else if maxClock.toNat < hz then .error .clockTooFast
    else .ok (UInt32.ofNat hz)

end Chip8.Settings
