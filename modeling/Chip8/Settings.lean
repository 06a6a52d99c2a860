/-
  File:      Chip8/Settings.lean
  Subject:   everything the host needs to start a session
-/
import Chip8.Plane

namespace Chip8

/-! ## 1. The clock -/

/-- Instructions a second, unless something else is asked for. -/
def defaultClock : UInt32 := 1760000

/-- The fastest clock, in instructions a second. -/
def maxClock : UInt32 := 1000000000

/-- The clock held between one and the fastest. -/
def clampClock (hz : UInt32) : UInt32 := if hz = 0 then 1 else if maxClock < hz then maxClock else hz

/-! ## 2. The window -/

/-- How many screen pixels wide and high a pixel of the plane may be. -/
def scales : List Nat := [1, 2, 4, 8, 16, 32]

/-- The scale, unless something else is asked for. -/
def defaultScale : Nat := 16

/-- How many milliseconds apart a debugger's view of the machine is renewed. -/
def inspectorRefresh : Nat := 15

/-- The scales a window offers. -/
inductive WindowScale where
  | x1
  | x2
  | x4
  | x8
  | x16
  | x32
  deriving DecidableEq

namespace WindowScale

/-- How many screen pixels wide and high a pixel of the plane is. -/
def factor : WindowScale → Nat
  | .x1 => 1
  | .x2 => 2
  | .x4 => 4
  | .x8 => 8
  | .x16 => 16
  | .x32 => 32

/-- The window scale for a factor; one that no window offers gives the default. -/
def ofFactor : Nat → WindowScale
  | 1 => .x1
  | 2 => .x2
  | 4 => .x4
  | 8 => .x8
  | 32 => .x32
  | _ => .x16

@[simp] theorem ofFactor_factor (s : WindowScale) : ofFactor s.factor = s := by
  cases s <;> rfl

end WindowScale

/-! ## 3. The settings -/

/-- What a session is started with. -/
structure Settings where
  rom : String
  clock : UInt32
  scale : Nat
  palette : Palette
  mute : Bool
  startPaused : Bool
  deriving DecidableEq

/-- The settings of a session that asks for nothing but a program. -/
def Settings.standard (rom : String) : Settings where
  rom := rom
  clock := defaultClock
  scale := defaultScale
  palette := .default
  mute := false
  startPaused := false

end Chip8
