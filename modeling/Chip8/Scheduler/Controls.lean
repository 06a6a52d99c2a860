/-
  File:      Chip8/Scheduler/Controls.lean
  Subject:   the controls that host and CPU thread share
-/
import Chip8.Settings

namespace Chip8

@[ext] structure Controls where
  /-- Whether the thread has been started and not halted. -/
  running : Bool
  /-- Whether the thread waits for single steps. -/
  paused : Bool
  /-- Whether a single step has been asked for and not taken yet. -/
  stepRequested : Bool
  /-- Instructions a second. -/
  clock : UInt32
  deriving DecidableEq

namespace Controls

/-- Not running, not paused, no step asked for, at a clock held within its bounds. -/
def initial (clock : UInt32) : Controls := ⟨false, false, false, clampClock clock⟩

/-- The thread waits for single steps from now on. -/
def pause (c : Controls) : Controls := { c with paused := true }

/-- The thread runs freely from now on; a step asked for is forgotten. -/
def resume (c : Controls) : Controls := { c with paused := false, stepRequested := false }

/-- Asks for a single step, which is only heard while paused. -/
def requestStep (c : Controls) : Controls := { c with stepRequested := c.paused || c.stepRequested }

/-- The step asked for is taken. -/
def takeStep (c : Controls) : Controls := { c with stepRequested := false }

/-- Another clock. -/
def setClock (c : Controls) (hz : UInt32) : Controls := { c with clock := hz }

/-- Twice a clock; what has no room in 32 bits is the largest number that has. -/
def twice (hz : UInt32) : UInt32 := UInt32.ofNat (min (2 * hz.toNat) 4294967295)

end Controls

end Chip8
