/-
  File:      Chip8/Main.lean
  Subject:   the program

  The command line names a program file; its session is played without a window, and the last
  picture and the state of the machine are printed. The log goes to the error output.
-/
import Chip8.CommandLine.Help
import Chip8.Session
import Chip8.Session.Play

namespace Chip8.Main

/-- How many turns a session without a window lasts. -/
def sessionTurns : Nat := 600

/-- The contents of a file, or why it cannot be read. -/
def readContents (path : String) : IO (Except String Program) := do
  try
    return .ok (← IO.FS.readBinFile path).data
  catch e =>
    match e with
    | .noFileOrDirectory .. => return .error Session.missingFile
    | other => return .error (toString other)

/-- A session from its settings to its last picture. -/
def runSession (settings : Settings) : IO UInt32 := do
  let contents ← readContents settings.rom
  let generator := Generator.ofSeed (UInt64.ofNat (← IO.monoNanosNow))
  match Session.prepare settings contents generator with
  | .error failure =>
    IO.eprintln ("Error: " ++ "\n\nCaused by:\n    ".intercalate failure.chain)
    return 1
  | .ok (prepared, signals) =>
    let (last, more) := Session.play prepared.start sessionTurns
    for signal in signals ++ more do
      if let some line := Session.shownLine? signal then IO.eprintln line
    IO.println (Session.planeText last.machine.plane)
    IO.println (last.lock.snapshot last.controls.clock).text
    return 0

end Chip8.Main

open Chip8 in
def main (arguments : List String) : IO UInt32 := do
  match CommandLine.parse arguments with
  | .ok settings => Main.runSession settings
  | .error .help =>
    IO.println CommandLine.help
    return 0
  | .error .version =>
    IO.println "chip8 0.1.0"
    return 0
  | .error (.usage e) =>
    IO.eprint e.report
    return 2
