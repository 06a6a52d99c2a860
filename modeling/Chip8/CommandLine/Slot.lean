/-
  File:      Chip8/CommandLine/Slot.lean
  Subject:   what a command line can hold

  A slot takes a value: the program, or one of four options. A flag takes none. A `Draft` is what
  a command line has said so far.
-/
import Chip8.Settings.Value

namespace Chip8.CommandLine

/-! ## 1. Slots and flags -/

/-- Something a command line gives a value to. -/
inductive Slot where
  | rom
  | clock
  | scale
  | foreground
  | background
  deriving DecidableEq

def Slot.shown : Slot → String
  | .rom => "<ROM>"
  | .clock => "--clock-hz <CLOCK_HZ>"
  | .scale => "--scale <SCALE>"
  | .foreground => "--foreground <FOREGROUND>"
  | .background => "--background <BACKGROUND>"

/-- Something a command line switches on. -/
inductive Flag where
  | mute
  | paused
  deriving DecidableEq

def Flag.shown : Flag → String
  | .mute => "--mute"
  | .paused => "--paused"

/-! ## 2. What has been said -/

/-- What a command line has said so far. -/
structure Draft where
  rom : Option String
  clock : Option UInt32
  scale : Option Nat
  foreground : Option Colour
  background : Option Colour
  mute : Bool
  paused : Bool
  deriving DecidableEq

namespace Draft

def blank : Draft := ⟨none, none, none, none, none, false, false⟩

def has (d : Draft) : Slot → Bool
  | .rom => d.rom.isSome
  | .clock => d.clock.isSome
  | .scale => d.scale.isSome
  | .foreground => d.foreground.isSome
  | .background => d.background.isSome

/-- A slot given the value a text denotes, or why the text denotes none. -/
def fill (d : Draft) (text : String) : Slot → Except Settings.ValueRefusal Draft
  | .rom => .ok { d with rom := some text }
  | .clock => (Settings.readClock text).map fun hz => { d with clock := some hz }
  | .scale => (Settings.readScale text).map fun scale => { d with scale := some scale }
  | .foreground => (Settings.readColour text).map fun c => { d with foreground := some c }
  | .background => (Settings.readColour text).map fun c => { d with background := some c }

def isOn (d : Draft) : Flag → Bool
  | .mute => d.mute
  | .paused => d.paused

def switchOn (d : Draft) : Flag → Draft
  | .mute => { d with mute := true }
  | .paused => { d with paused := true }

/-- The settings that were asked for, with the standard where nothing was said; none without a
    program. -/
def settings? (d : Draft) : Option Settings :=
  d.rom.map fun rom =>
    let standard := Settings.standard rom
    { rom
      clock := d.clock.getD standard.clock
      scale := d.scale.getD standard.scale
      palette := ⟨d.foreground.getD standard.palette.foreground,
        d.background.getD standard.palette.background⟩
      mute := d.mute
      startPaused := d.paused }

end Draft

end Chip8.CommandLine
