/-
  File:      Chip8/CommandLine/Help.lean
  Subject:   the help on the command line
-/
import Chip8.CommandLine

namespace Chip8.CommandLine

/-- An entry of the help: how an option is written, and what it does. -/
def helpEntry (shown meaning : String) : String :=
  "  " ++ shown ++ String.ofList (List.replicate (30 - shown.length) ' ') ++ meaning

def help : String := "\n".intercalate [
  "CHIP-8 virtual machine",
  "",
  usageLine,
  "",
  "Arguments:",
  helpEntry Slot.rom.shown "ROM image to run",
  "",
  "Options:",
  helpEntry Slot.clock.shown
    ("Instructions per second [default: " ++ toString defaultClock.toNat ++ "]"),
  helpEntry Slot.scale.shown
    ("Window scale (1, 2, 4, 8, 16 or 32) [default: " ++ toString defaultScale ++ "]"),
  helpEntry Slot.foreground.shown "Lit pixel colour, RRGGBB",
  helpEntry Slot.background.shown "Background colour, RRGGBB",
  helpEntry Flag.mute.shown "No sound",
  helpEntry Flag.paused.shown "Start in single-step mode",
  helpEntry "--help" "Print help",
  helpEntry "--version" "Print version"]

end Chip8.CommandLine
